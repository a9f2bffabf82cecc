import TypedFuse.Core.Progress
import TypedFuse.Path.PathSample

/-!
# The path adapter does not deadlock

The adapter adds two locks to the leases of the runtime: the operations lock and the mutex of the
namespace.  Leases come first, the operations lock second and the namespace last, and no callback
asks for either side of the operations lock, or for the namespace, while it holds it.
-/

namespace TypedFuse

open Conc Conc.Service TypedFuse.Runtime

/-- The guard of the operations lock that a callback holds. -/
inductive OpGuard where
  | none
  | read
  | write
  deriving DecidableEq

/-- The guards that a callback holds. -/
structure PathHeld where
  op : OpGuard
  ns : Bool
  deriving DecidableEq

/-- What an instruction does with locks. -/
inductive LockStep where
  | readLock
  | readUnlock
  | writeLock
  | writeUnlock
  | nsLock
  | nsUnlock
  /-- A critical section of the namespace of its own. -/
  | nsUse
  /-- Nothing. -/
  | plain
  deriving DecidableEq

/-- The operations lock comes before the namespace. -/
def LockStep.level : LockStep → ℕ
  | .readLock => 0
  | .writeLock => 0
  | .nsLock => 1
  | .nsUse => 1
  | _ => 2

namespace PathHeld

/-- No guard. -/
def free : PathHeld := ⟨.none, false⟩

/-- What a callback holds after a step.  A lock that it holds must not be asked for again, and the
operations lock not while it holds the namespace. -/
def after (h : PathHeld) : LockStep → Option PathHeld
  | .readLock => if h = free then some ⟨.read, false⟩ else none
  | .readUnlock => if h = ⟨.read, false⟩ then some free else none
  | .writeLock => if h = free then some ⟨.write, false⟩ else none
  | .writeUnlock => if h = ⟨.write, false⟩ then some free else none
  | .nsLock => if h.ns = false then some { h with ns := true } else none
  | .nsUnlock => if h.ns = true then some { h with ns := false } else none
  | .nsUse => if h.ns = false then some h else none
  | .plain => some h

/-- Which steps wait for the guards of a callback. -/
def blocks (h : PathHeld) : LockStep → Bool
  | .readLock => h.op = .write
  | .writeLock => h.op ≠ .none
  | .nsLock => h.ns
  | .nsUse => h.ns
  | _ => false

/-- Who makes a step wait does not wait for a lock of the same or a lower level. -/
lemma ascends {h : PathHeld} {i j : LockStep} (hblocks : h.blocks i = true)
    (hafter : h.after j ≠ none) : i.level < j.level := by
  obtain ⟨op, ns⟩ := h
  cases op <;> cases ns <;> cases i <;> first
    | exact absurd hblocks (by decide)
    | cases j <;> first | decide | exact absurd rfl hafter

variable {P : PathFilesystem}

/-- The locks are held by callbacks. -/
structure Inv (s : PathState P) (M : Multiset PathHeld) : Prop where
  readers : s.readers = M.countP fun h => h.op = .read
  writing : (if s.writing then 1 else 0) = M.countP fun h => h.op = .write
  locked : (if s.nsLocked then 1 else 0) = M.countP fun h => h.ns = true

end PathHeld

variable {P : PathFilesystem}

/-- What an instruction of the adapter does with locks. -/
def lockStep : FsInstr (PathNodeFs.sig P) → LockStep
  | .own .readLock => .readLock
  | .own .readUnlock => .readUnlock
  | .own .writeLock => .writeLock
  | .own .writeUnlock => .writeUnlock
  | .own .nsLock => .nsLock
  | .own .nsUnlock => .nsUnlock
  | .own (.nodeId _) => .nsUse
  | .own (.pathFor _) => .nsUse
  | _ => .plain

/-- What a callback of the adapter holds after an instruction.  It owns no `NodeRef` to drop. -/
def PathHeld.afterInstr (h : PathHeld) : FsInstr (PathNodeFs.sig P) → Option PathHeld
  | .dropRef _ => none
  | i => h.after (lockStep i)

/-- The discipline of the adapter. -/
def pathDiscipline (P : PathFilesystem) : OwnDiscipline (PathNodeFs.sig P) where
  Held := PathHeld
  free := PathHeld.free
  after := fun i _ h => h.afterInstr i
  inv := PathHeld.Inv

/-- The locks are ordered. -/
lemma pathDiscipline_ordered : @OwnDiscipline.Ordered (pathNodeFs P) (pathDiscipline P) 2
    (fun i => (lockStep i).level) fun h i => PathHeld.blocks h (lockStep i) = true where
  level_le := by
    intro i
    cases lockStep i <;> decide
  free := by
    intro i
    change ¬ PathHeld.blocks PathHeld.free (lockStep i) = true
    cases lockStep i <;> decide
  ascends := by
    intro h i j hblocks hafter
    by_cases hj : lockStep j = .plain
    · rw [hj]
      cases hi : lockStep i with
      | _ => rw [hi] at hblocks; first | decide | cases hblocks
    · have hsome : ∃ h', PathHeld.after h (lockStep j) = some h' := by
        cases j with
        | own j =>
          cases j with
          | readLock | readUnlock | writeLock | writeUnlock | nsLock | nsUnlock => exact hafter ()
          | nodeId key => exact hafter none
          | pathFor id => exact hafter none
          | _ => exact absurd rfl hj
        | _ => exact absurd rfl hj
      obtain ⟨h', hh⟩ := hsome
      exact PathHeld.ascends hblocks (by rw [hh]; exact Option.some_ne_none _)

/-! ## The locks are held by callbacks -/

/-- Every call of the inner filesystem returns, in every state. -/
def PathFilesystem.Returns (P : PathFilesystem) : Prop :=
  ∀ c s, ∃ ch, P.call c ch s ≠ none

/-- Why an own step of the adapter waits, if not for a guard: the namespace has a cycle or no key
left. -/
def PathState.Stalls (s : PathState P) : PathInstr P → Prop
  | .pathFor id => s.ns.pathFor id = none
  | .takeKey => s.ns.takeKey = none
  | _ => False

/-- A call of the inner filesystem that has to wait. -/
def PathState.InnerWaits (s : PathState P) : PathInstr P → Prop
  | .inner call => ∀ ch, P.call call ch s.inner = none
  | _ => False

namespace PathHeld

variable {s s' : PathState P} {h h' : PathHeld} {M : Multiset PathHeld}

/-- A callback takes or drops a guard. -/
lemma Inv.swap (hinv : Inv s (h ::ₘ M))
    (hreaders : s'.readers + (if h.op = .read then 1 else 0) =
      s.readers + if h'.op = .read then 1 else 0)
    (hwriting : (if s'.writing then 1 else 0) + (if h.op = .write then 1 else 0) =
      (if s.writing then 1 else 0) + if h'.op = .write then 1 else 0)
    (hlocked : (if s'.nsLocked then 1 else 0) + (if h.ns = true then 1 else 0) =
      (if s.nsLocked then 1 else 0) + if h'.ns = true then 1 else 0) : Inv s' (h' ::ₘ M) := by
  obtain ⟨hr, hw, hl⟩ := hinv
  rw [Multiset.countP_cons] at hr hw hl
  refine ⟨?_, ?_, ?_⟩
  · rw [Multiset.countP_cons]
    omega
  · rw [Multiset.countP_cons]
    omega
  · rw [Multiset.countP_cons]
    omega

/-- The write guard is held if a callback holds it. -/
lemma Inv.writing_of (hinv : Inv s (h ::ₘ M)) (hop : h.op = .write) : s.writing = true := by
  have hw := hinv.writing
  rw [Multiset.countP_cons, if_pos hop] at hw
  by_contra hne
  rw [if_neg hne] at hw
  omega

lemma Inv.readers_of (hinv : Inv s (h ::ₘ M)) (hop : h.op = .read) : 0 < s.readers := by
  have hr := hinv.readers
  rw [Multiset.countP_cons, if_pos hop] at hr
  omega

lemma Inv.locked_of (hinv : Inv s (h ::ₘ M)) (hns : h.ns = true) : s.nsLocked = true := by
  have hl := hinv.locked
  rw [Multiset.countP_cons, if_pos hns] at hl
  by_contra hne
  rw [if_neg hne] at hl
  omega

/-- Every own step of the adapter keeps the discipline. -/
lemma Inv.exec {n : ℕ} {i : PathInstr P} {c : P.Choice} {r : i.Resp}
    (he : s.exec n i c = some (r, s')) (hafter : h.after (lockStep (.own i)) = some h')
    (hinv : Inv s (h ::ₘ M)) : Inv s' (h' ::ₘ M) := by
  have hsame : ∀ {s' : PathState P}, s'.readers = s.readers → s'.writing = s.writing →
      s'.nsLocked = s.nsLocked → Inv s' (h ::ₘ M) := by
    intro s' hr hw hl
    exact hinv.swap (by rw [hr]) (by rw [hw]) (by rw [hl])
  cases i with
  | readLock =>
    change (if s.writing then none else some ((), _)) = some (r, s') at he
    change (if h = free then some (⟨.read, false⟩ : PathHeld) else none) = some h' at hafter
    split at he
    · cases he
    obtain ⟨_, rfl⟩ := Prod.mk.inj (Option.some.inj he)
    split at hafter
    · next hfree =>
      obtain rfl := Option.some.inj hafter
      subst hfree
      exact hinv.swap rfl rfl rfl
    · cases hafter
  | readUnlock =>
    change some ((), _) = some (r, s') at he
    change (if h = ⟨.read, false⟩ then some free else none) = some h' at hafter
    obtain ⟨_, rfl⟩ := Prod.mk.inj (Option.some.inj he)
    split at hafter
    · next hread =>
      obtain rfl := Option.some.inj hafter
      subst hread
      have hpos := hinv.readers_of rfl
      refine hinv.swap ?_ rfl rfl
      change s.readers - 1 + 1 = s.readers + 0
      omega
    · cases hafter
  | writeLock =>
    change (if s.writing ∨ 0 < s.readers then none else some ((), _)) = some (r, s') at he
    change (if h = free then some (⟨.write, false⟩ : PathHeld) else none) = some h' at hafter
    split at he
    · cases he
    next hno =>
    obtain ⟨_, rfl⟩ := Prod.mk.inj (Option.some.inj he)
    split at hafter
    · next hfree =>
      obtain rfl := Option.some.inj hafter
      subst hfree
      refine hinv.swap rfl ?_ rfl
      rw [if_neg fun hw => hno (Or.inl hw)]
      rfl
    · cases hafter
  | writeUnlock =>
    change some ((), _) = some (r, s') at he
    change (if h = ⟨.write, false⟩ then some free else none) = some h' at hafter
    obtain ⟨_, rfl⟩ := Prod.mk.inj (Option.some.inj he)
    split at hafter
    · next hwrite =>
      obtain rfl := Option.some.inj hafter
      subst hwrite
      refine hinv.swap rfl ?_ rfl
      rw [if_pos (hinv.writing_of rfl)]
      rfl
    · cases hafter
  | nsLock =>
    change (if s.nsLocked then none else some ((), _)) = some (r, s') at he
    change (if h.ns = false then some { h with ns := true } else none) = some h' at hafter
    split at he
    · cases he
    next hno =>
    obtain ⟨_, rfl⟩ := Prod.mk.inj (Option.some.inj he)
    split at hafter
    · next hns =>
      obtain rfl := Option.some.inj hafter
      refine hinv.swap rfl rfl ?_
      rw [if_neg hno, hns]
      rfl
    · cases hafter
  | nsUnlock =>
    change some ((), _) = some (r, s') at he
    change (if h.ns = true then some { h with ns := false } else none) = some h' at hafter
    obtain ⟨_, rfl⟩ := Prod.mk.inj (Option.some.inj he)
    split at hafter
    · next hns =>
      obtain rfl := Option.some.inj hafter
      refine hinv.swap rfl rfl ?_
      rw [if_pos (hinv.locked_of hns), hns]
      rfl
    · cases hafter
  | nodeId key =>
    change (if s.nsLocked then none else some (_, s)) = some (r, s') at he
    change (if h.ns = false then some h else none) = some h' at hafter
    split at he
    · cases he
    obtain ⟨_, rfl⟩ := Prod.mk.inj (Option.some.inj he)
    split at hafter
    · obtain rfl := Option.some.inj hafter
      exact hinv
    · cases hafter
  | pathFor id =>
    change (if s.nsLocked then none else (s.ns.pathFor id).map fun p => (p, s)) = some (r, s') at he
    change (if h.ns = false then some h else none) = some h' at hafter
    split at he
    · cases he
    obtain ⟨_, _, heq⟩ := Option.map_eq_some_iff.mp he
    obtain ⟨_, rfl⟩ := Prod.mk.inj heq
    split at hafter
    · obtain rfl := Option.some.inj hafter
      exact hinv
    · cases hafter
  | takeKey | inner =>
    obtain rfl := Option.some.inj hafter
    obtain ⟨_, _, heq⟩ := Option.map_eq_some_iff.mp he
    obtain ⟨_, rfl⟩ := Prod.mk.inj heq
    exact hsame rfl rfl rfl
  | known | record | find | remove | addAlias =>
    obtain rfl := Option.some.inj hafter
    obtain ⟨_, rfl⟩ := Prod.mk.inj (Option.some.inj he)
    exact hsame rfl rfl rfl

/-- A step that waits for a lock waits for a callback. -/
lemma Inv.waits (c : P.Choice) {n : ℕ} {i : PathInstr P} (hinv : Inv s M)
    (hnone : ∀ c, s.exec n i c = none) :
    (s.Stalls i ∨ s.InnerWaits i) ∨ ∃ h ∈ M, h.blocks (lockStep (.own i)) = true := by
  have hn := hnone c
  have hlocked : s.nsLocked = true → ∃ h ∈ M, h.ns = true := by
    intro hl
    have hcount := hinv.locked
    rw [if_pos hl] at hcount
    exact Multiset.countP_pos.mp (by omega)
  have hwriting : s.writing = true → ∃ h ∈ M, h.op = .write := by
    intro hw
    have hcount := hinv.writing
    rw [if_pos hw] at hcount
    exact Multiset.countP_pos.mp (by omega)
  have hreading : 0 < s.readers → ∃ h ∈ M, h.op = .read := by
    intro hr
    have hcount := hinv.readers
    exact Multiset.countP_pos.mp (by omega)
  cases i with
  | readLock =>
    change (if s.writing then none else some _) = none at hn
    split at hn
    · next hw =>
      obtain ⟨h, hh, hop⟩ := hwriting hw
      exact Or.inr ⟨h, hh, decide_eq_true hop⟩
    · cases hn
  | writeLock =>
    change (if s.writing ∨ 0 < s.readers then none else some _) = none at hn
    split at hn
    · next hw =>
      rcases hw with hw | hr
      · obtain ⟨h, hh, hop⟩ := hwriting hw
        exact Or.inr ⟨h, hh, decide_eq_true (by rw [hop]; decide)⟩
      · obtain ⟨h, hh, hop⟩ := hreading hr
        exact Or.inr ⟨h, hh, decide_eq_true (by rw [hop]; decide)⟩
    · cases hn
  | nsLock =>
    change (if s.nsLocked then none else some _) = none at hn
    split at hn
    · next hl => exact Or.inr (hlocked hl)
    · cases hn
  | nodeId key =>
    change (if s.nsLocked then none else some _) = none at hn
    split at hn
    · next hl => exact Or.inr (hlocked hl)
    · cases hn
  | pathFor id =>
    change (if s.nsLocked then none else (s.ns.pathFor id).map _) = none at hn
    split at hn
    · next hl => exact Or.inr (hlocked hl)
    · exact Or.inl (Or.inl (Option.map_eq_none_iff.mp hn))
  | takeKey => exact Or.inl (Or.inl (Option.map_eq_none_iff.mp hn))
  | inner call => exact Or.inl (Or.inr fun ch => Option.map_eq_none_iff.mp (hnone ch))
  | readUnlock | writeUnlock | nsUnlock | known | record | find | remove | addAlias =>
    exact absurd hn (Option.some_ne_none _)

end PathHeld

/-! ## Callbacks -/

section Callbacks

variable {α β D : Type} {h h' h'' : PathHeld}

/-- A callback that is entered with the guards `h` and left with the guards `h'`. -/
def Carries (P : PathFilesystem) (h h' : PathHeld) (p : PathNodeFs.Callback P α) : Prop :=
  ∀ l, (rtDiscipline (pathNodeFs P) (pathDiscipline P)).Keeps ⟨l, h⟩
    (@Runtime.call (PathNodeFs.sig P) α p) fun _ x => x = ⟨l, h'⟩

namespace Carries

lemma ret (a : α) : Carries P h h (.ret a) :=
  fun _ => rfl

lemma bind {p : PathNodeFs.Callback P α} {f : α → PathNodeFs.Callback P β}
    (hp : Carries P h h' p) (hf : ∀ a, Carries P h' h'' (f a)) : Carries P h h'' (p >>= f) := by
  intro l
  rw [call_bind]
  refine Discipline.Keeps.bind (hp l) ?_
  rintro a x rfl
  exact hf a l

/-- One instruction, then the rest. -/
lemma step {k : PathHeld} {i : FsInstr (PathNodeFs.sig P)} (hi : h.afterInstr i = some k)
    {f : i.Resp → PathNodeFs.Callback P α} (hf : ∀ r, Carries P k h' (f r)) :
    Carries P h h' (Prog.perform i >>= f) := by
  intro l r
  refine ⟨⟨l, k⟩, ?_, hf r l⟩
  change (h.afterInstr i).map _ = _
  rw [hi]
  rfl

lemma perform {i : FsInstr (PathNodeFs.sig P)} (hi : h.afterInstr i = some h') :
    Carries P h h' (Prog.perform i) :=
  step hi fun r => ret r

/-- Both branches of a conditional. -/
lemma ite {c : Prop} {_ : Decidable c} {p q : PathNodeFs.Callback P α} (hp : Carries P h h' p)
    (hq : Carries P h h' q) : Carries P h h' (if c then p else q) := by
  split
  · exact hp
  · exact hq

/-- Run a callback under a read guard. -/
lemma reading {body : PathNodeFs.Callback P α}
    (hbody : Carries P ⟨.read, false⟩ ⟨.read, false⟩ body) :
    Carries P .free .free (PathNodeFs.reading body) :=
  step (i := .own .readLock) rfl fun _ => bind hbody fun a =>
    step (i := .own .readUnlock) rfl fun _ => ret a

/-- Run a callback under the write guard. -/
lemma writing {body : PathNodeFs.Callback P α}
    (hbody : Carries P ⟨.write, false⟩ ⟨.write, false⟩ body) :
    Carries P .free .free (PathNodeFs.writing body) :=
  step (i := .own .writeLock) rfl fun _ => bind hbody fun a =>
    step (i := .own .writeUnlock) rfl fun _ => ret a

end Carries

/-- A callback that is entered and left with a guard of the operations lock. -/
abbrev KeepsGuard (P : PathFilesystem) (op : OpGuard) (p : PathNodeFs.Callback P α) : Prop :=
  Carries P ⟨op, false⟩ ⟨op, false⟩ p

namespace KeepsGuard

variable {op : OpGuard}

lemma inner (c : PathCall P.Payload) : KeepsGuard P op (PathNodeFs.inner c) :=
  .perform (i := .own (.inner c)) rfl

lemma nodePath (node : PathNode) : KeepsGuard P op (PathNodeFs.nodePath node) := by
  refine .step (i := .own (.nodeId node.key)) rfl ?_
  intro r
  cases r with
  | none => exact .ret _
  | some id => exact .perform (i := .own (.pathFor id)) rfl

lemma onOk {outcome : Fallible α} {next : α → PathNodeFs.Callback P (Fallible β)}
    (hnext : ∀ a, KeepsGuard P op (next a)) : KeepsGuard P op (PathNodeFs.onOk outcome next) := by
  cases outcome with
  | error e => exact .ret _
  | ok a => exact hnext a

/-- `self.path(id)?` and the rest of the function. -/
lemma withPathOf {id : NodeId} {next : Path → PathNodeFs.Callback P (Fallible α)}
    (hnext : ∀ p, KeepsGuard P op (next p)) :
    KeepsGuard P op (PathNodeFs.withPathOf id next) := by
  refine .step (i := .own (.pathFor id)) rfl ?_
  intro r
  cases r with
  | none => exact .ret _
  | some p => exact hnext p

/-- `self.node_path(node).ok_or(Errno::ENOENT)?` and the rest of the function. -/
lemma withPath {node : PathNode} {next : Path → PathNodeFs.Callback P (Fallible α)}
    (hnext : ∀ p, KeepsGuard P op (next p)) :
    KeepsGuard P op (PathNodeFs.withPath node next) := by
  refine .bind (nodePath node) ?_
  intro r
  cases r with
  | none => exact .ret _
  | some p => exact hnext p

/-- `Namespace::insert` holds the namespace for itself. -/
lemma insert (parent : NodeId) (name : Name) : KeepsGuard P op (PathNodeFs.insert parent name) := by
  refine .step (i := .own .nsLock) (k := ⟨op, true⟩) rfl fun _ =>
    .step (i := .own (.known ⟨parent, name⟩)) rfl ?_
  intro r
  cases r with
  | some id => exact .step (i := .own .nsUnlock) rfl fun _ => .ret _
  | none =>
    refine .step (i := .own .takeKey) rfl fun key => .step (i := .insert ⟨key⟩ parent) rfl ?_
    intro id
    exact .step (i := .own (.record key id ⟨parent, name⟩)) rfl fun _ =>
      .step (i := .own .nsUnlock) rfl fun _ => .ret _

lemma addNode (parent : NodeId) (name : Name) : KeepsGuard P op (PathNodeFs.addNode parent name) :=
  .bind (insert parent name) fun _ => .ret _

lemma addEnumeratedNode (parent : NodeId) (name : Name) :
    KeepsGuard P op (PathNodeFs.addEnumeratedNode parent name) :=
  .bind (insert parent name) fun _ => .ret _

lemma removeLinkOf (removed : Option NodeId) : Carries P h h (PathNodeFs.removeLinkOf removed) := by
  cases removed with
  | none => exact .ret ()
  | some id => exact .perform (i := .removeLink id) rfl

lemma removeDentry (d : Dentry) : KeepsGuard P op (PathNodeFs.removeDentry d) :=
  .step (i := .own .nsLock) (k := ⟨op, true⟩) rfl fun _ => .step (i := .own (.remove d)) rfl
    fun removed => .bind (removeLinkOf removed) fun _ => .perform (i := .own .nsUnlock) rfl

lemma rollback (ds : List Dentry) : KeepsGuard P op (PathNodeFs.rollback ds) := by
  induction ds with
  | nil => exact .ret ()
  | cons d ds ih => exact .bind (removeDentry d) fun _ => ih

lemma undo (result : Fallible Unit) (inserted : List Dentry) :
    KeepsGuard P op (PathNodeFs.undo result inserted) := by
  unfold PathNodeFs.undo
  split
  · exact rollback _
  · exact .ret ()

lemma enumerate (this parent : NodeId) (name : Name) :
    KeepsGuard P op (PathNodeFs.enumerate this parent name) := by
  unfold PathNodeFs.enumerate
  split
  · exact .ret _
  · split
    · exact .ret _
    · exact addEnumeratedNode this name

/-- The end of `rename`, under the guard of the namespace. -/
lemma moveDentry (old new : Dentry) : Carries P h h (PathNodeFs.moveDentry old new) := by
  refine .step (i := .own (.find old)) rfl ?_
  intro r
  cases r with
  | none => exact .ret ()
  | some source =>
    refine .step (i := .own (.find new)) rfl fun target => .ite (.ret ()) ?_
    exact .step (i := .own (.remove new)) rfl fun replaced => .bind (removeLinkOf replaced)
      fun _ => .step (i := .own (.remove old)) rfl fun _ =>
        .step (i := .own (.addAlias source new)) rfl fun _ =>
          .perform (i := .reparent source new.parent) rfl

end KeepsGuard

/-! ## The callbacks of the trait -/

lemma carries_makeNode (parent : NodeId) (name : Name)
    {make : Path → PathNodeFs.Callback P (Fallible NodeAttr)}
    (hmake : ∀ p, KeepsGuard P .write (make p)) :
    Carries P .free .free (PathNodeFs.makeNode parent name make) :=
  .writing <| KeepsGuard.withPathOf fun p => .bind (hmake p) fun _ => KeepsGuard.onOk fun _ =>
    .bind (KeepsGuard.addNode parent name) fun _ => .ret _

lemma carries_link (id newparent : NodeId) (newname : Name) (caller : Caller) :
    Carries P .free .free (PathNodeFs.link id newparent newname caller) := by
  refine .writing <| KeepsGuard.withPathOf fun source => KeepsGuard.withPathOf fun parent =>
    .bind (KeepsGuard.inner _) fun linked => KeepsGuard.onOk fun _ => ?_
  exact .step (i := .own .nsLock) (k := ⟨.write, true⟩) rfl fun _ =>
    .step (i := .own (.addAlias id ⟨newparent, newname⟩)) rfl fun _ =>
      .step (i := .own .nsUnlock) rfl fun _ => .step (i := .addLink id) rfl fun _ => .ret _

lemma carries_makeOp (op : MakeOp) (caller : Caller) :
    Carries P .free .free (PathNodeFs.makeOp op caller) := by
  cases op with
  | mknod parent name mode rdev umask =>
    exact carries_makeNode parent name fun _ => KeepsGuard.inner _
  | mkdir parent name mode umask => exact carries_makeNode parent name fun _ => KeepsGuard.inner _
  | symlink parent name target => exact carries_makeNode parent name fun _ => KeepsGuard.inner _
  | link id newparent newname => exact carries_link id newparent newname caller

lemma carries_removeEntry (parent : NodeId) (name : Name) (directory : Bool) (caller : Caller) :
    Carries P .free .free (PathNodeFs.removeEntry parent name directory caller) := by
  exact .writing <| KeepsGuard.withPathOf fun p =>
    .bind (.ite (KeepsGuard.inner _) (KeepsGuard.inner _))
    fun _ => KeepsGuard.onOk fun _ => .bind (KeepsGuard.removeDentry _) fun _ => .ret _

lemma carries_rename (parent : NodeId) (name : Name) (newparent : NodeId) (newname : Name)
    (flags : ℕ) (caller : Caller) :
    Carries P .free .free (PathNodeFs.rename parent name newparent newname flags caller) := by
  unfold PathNodeFs.rename
  split
  · exact .ret _
  · exact .writing <| KeepsGuard.withPathOf fun _ => KeepsGuard.withPathOf fun _ =>
      .bind (KeepsGuard.inner _) fun _ => KeepsGuard.onOk fun _ =>
      .step (i := .own .nsLock) (k := ⟨.write, true⟩) rfl fun _ =>
      .bind (KeepsGuard.moveDentry _ _) fun _ =>
      .step (i := .own .nsUnlock) rfl fun _ => .ret _

lemma carries_treeOp (op : TreeOp) (caller : Caller) :
    Carries P .free .free (PathNodeFs.treeOp op caller) := by
  cases op with
  | unlink parent name => exact carries_removeEntry parent name false caller
  | rmdir parent name => exact carries_removeEntry parent name true caller
  | rename parent name newparent newname flags =>
    exact carries_rename parent name newparent newname flags caller
  | copyFileRange idIn offIn idOut offOut len flags => exact .ret _

lemma carries_create (parent : NodeId) (name : Name) (mode umask : ℕ) (flags : ℤ)
    (caller : Caller) :
    Carries P .free .free (PathNodeFs.create parent name mode umask flags caller) :=
  .writing <| KeepsGuard.withPathOf fun _ => .bind (KeepsGuard.inner _) fun _ =>
    KeepsGuard.onOk fun _ => .bind (KeepsGuard.addNode parent name) fun _ => .ret _

lemma carries_lookup (parent : NodeId) (name : Name) (caller : Caller) :
    Carries P .free .free (PathNodeFs.lookup parent name caller) := by
  refine .reading <| KeepsGuard.withPathOf fun _ => .bind (KeepsGuard.inner _) fun _ =>
    KeepsGuard.onOk ?_
  intro attr
  cases attr with
  | none => exact .ret _
  | some _ => exact .bind (KeepsGuard.addNode parent name) fun _ => .ret _

/-- A callback that computes the path of its node and calls the inner filesystem. -/
lemma carries_pathThen (node : PathNode) {f : Option Path → PathNodeFs.Callback P α}
    (hf : ∀ p, KeepsGuard P .read (f p)) :
    Carries P .free .free (PathNodeFs.reading (PathNodeFs.nodePath node >>= f)) :=
  .reading <| .bind (KeepsGuard.nodePath node) hf

/-- A directory callback that is entered with the guards `h` and left with the guards `h'`. -/
def CarriesDir (P : PathFilesystem) (h h' : PathHeld) (p : PathNodeFs.DirCallback P D α) : Prop :=
  ∀ l, p.wp (@holdSpec (pathNodeFs P) D (pathDiscipline P))
    (fun _ x => x = ⟨l, h'⟩) ⟨l, h⟩

namespace CarriesDir

lemma ret (a : α) : CarriesDir P h h (.ret a : PathNodeFs.DirCallback P D α) :=
  fun _ => rfl

lemma bind {p : PathNodeFs.DirCallback P D α} {f : α → PathNodeFs.DirCallback P D β}
    (hp : CarriesDir P h h' p) (hf : ∀ a, CarriesDir P h' h'' (f a)) :
    CarriesDir P h h'' (p >>= f) := by
  intro l
  refine Prog.wp_bind.mpr (Prog.wp_mono (mono_holdSpec _) ?_ (hp l))
  rintro a x rfl
  exact hf a l

/-- A callback, then the rest. -/
lemma inDir {p : PathNodeFs.Callback P α} {f : α → PathNodeFs.DirCallback P D β}
    (hp : Carries P h h' p) (hf : ∀ a, CarriesDir P h' h'' (f a)) :
    CarriesDir P h h'' (FsProg.inDir p >>= f) :=
  bind (fun l => holds_inDir.mpr (hp l)) hf

/-- The sinks keep the read guard. -/
lemma emitAll (this parent : NodeId) (listing : Listing D) (inserted : List Dentry) :
    CarriesDir P ⟨.read, false⟩ ⟨.read, false⟩
      (PathNodeFs.emitAll (P := P) this parent listing inserted) := by
  induction listing generalizing inserted with
  | finish result => exact ret _
  | emit name data nextOffset next ih =>
    refine inDir (KeepsGuard.enumerate this parent name) ?_
    rintro ⟨id, dentry⟩ l accepted
    cases dentry with
    | none => exact ih accepted inserted l
    | some d =>
      refine Prog.wp_ite (fun _ => ih accepted _ l) fun _ => ?_
      exact inDir (KeepsGuard.removeDentry d) (fun _ => ih accepted inserted) l

/-- `readdir` and `readdirplus`. -/
lemma listDir (node : PathNode) (this parent : NodeId)
    {list : Path → PathNodeFs.Callback P (Listing D)}
    (hlist : ∀ p, KeepsGuard P .read (list p)) :
    CarriesDir P .free .free (PathNodeFs.listDir node this parent list) := by
  have hunlock : Carries P ⟨.read, false⟩ .free (PathNodeFs.own (P := P) .readUnlock) :=
    .perform (i := .own .readUnlock) rfl
  refine inDir (.perform (i := .own .readLock) rfl) fun _ => inDir (KeepsGuard.nodePath node) ?_
  intro r
  cases r with
  | none => exact inDir hunlock fun _ => ret _
  | some path =>
    refine inDir (hlist path) fun listing => bind (emitAll this parent listing []) ?_
    rintro ⟨result, inserted⟩
    exact inDir (KeepsGuard.undo result inserted) fun _ => inDir hunlock fun _ => ret _

end CarriesDir

/-- Calls of `Cx` leave the locks alone. -/
lemma fs_execFs {σ : FsSig} {s s' : RtState σ} {n : ℕ} {i : FsInstr σ} {ch : Option σ.Choice}
    {r : i.Resp} (hi : ∀ j, i ≠ .own j) (he : s.execFs n i ch = some (r, s')) :
    s'.fs = s.fs := by
  cases i with
  | own j => exact absurd rfl (hi j)
  | get | insert | addLink =>
    obtain ⟨_, _, heq⟩ := Option.map_eq_some_iff.mp he
    obtain ⟨_, rfl⟩ := Prod.mk.inj heq
    rfl
  | contains | reparent | removeLink =>
    obtain ⟨_, rfl⟩ := Prod.mk.inj (Option.some.inj he)
    rfl
  | dropRef ref =>
    change (if ref.key ∈ s.hist.fsRefs then some ((), _) else none) = some (r, s') at he
    split at he
    · obtain ⟨_, rfl⟩ := Prod.mk.inj (Option.some.inj he)
      rfl
    · cases he

/-- The callbacks of the adapter respect its discipline. -/
lemma pathDiscipline_respected :
    @OwnDiscipline.Respected (pathNodeFs P) (pathDiscipline P) where
  exec := by
    intro n i ch s s' r h h' M he hafter hinv
    cases i with
    | own i =>
      obtain ⟨c, f', hexec, rfl⟩ := exec_own he
      exact PathHeld.Inv.exec hexec hafter hinv
    | dropRef ref => cases hafter
    | _ =>
      obtain rfl := Option.some.inj hafter
      rw [fs_execFs (by simp) he]
      exact hinv
  issue := by
    intro s M hinv
    refine ⟨?_, ?_, ?_⟩
    · exact hinv.readers.trans (Multiset.countP_cons_of_neg M (a := PathHeld.free)
        (by decide)).symm
    · exact hinv.writing.trans (Multiset.countP_cons_of_neg M (a := PathHeld.free)
        (by decide)).symm
    · exact hinv.locked.trans (Multiset.countP_cons_of_neg M (a := PathHeld.free) (by decide)).symm
  init := ⟨rfl, rfl, rfl⟩
  populate := Carries.ret ()
  getattr := fun _ _ _ => carries_pathThen _ fun _ => KeepsGuard.inner _
  setattr := fun _ _ _ _ => carries_pathThen _ fun _ => KeepsGuard.inner _
  nodeOp := fun _ _ _ => Carries.reading <| KeepsGuard.withPath fun _ => KeepsGuard.inner _
  fileOp := fun _ _ _ _ => carries_pathThen _ fun _ => KeepsGuard.inner _
  fsyncdir := fun _ _ _ _ => carries_pathThen _ fun _ => KeepsGuard.inner _
  statfs := fun _ => Carries.reading <| KeepsGuard.inner _
  openNode := fun _ _ _ _ => Carries.reading <| KeepsGuard.withPath fun _ => KeepsGuard.inner _
  release := fun _ _ _ _ => carries_pathThen _ fun _ => KeepsGuard.inner _
  readdir := fun node id parent _ _ _ => CarriesDir.listDir node id parent fun _ =>
    KeepsGuard.inner _
  readdirplus := fun node id parent _ _ _ => CarriesDir.listDir node id parent fun _ =>
    KeepsGuard.inner _
  lookup := carries_lookup
  makeOp := carries_makeOp
  treeOp := carries_treeOp
  create := carries_create

end Callbacks

/-! ## No deadlock -/

/-- Request `n` waits for request `m`: to close a handle on which `m` holds a lease, for the
operations lock or for the namespace.  What is left of `m` gives back exactly what it holds. -/
def PathWaits (P : PathFilesystem) (c : Config (service (pathNodeFs P))) (n m : ℕ) : Prop :=
  (rtDiscipline (pathNodeFs P) (pathDiscipline P)).WaitsFor
    (RtHeld.Blocks fun h i => PathHeld.blocks h (lockStep i) = true) c n m

/-- Why a step of a callback of the adapter waits for no other callback. -/
def PathStalls (P : PathFilesystem) (s : RtState (PathNodeFs.sig P)) :
    FsInstr (PathNodeFs.sig P) → Prop
  | .own i => s.fs.Stalls i
  | _ => False

/-- A callback of the adapter waits for another one, unless it stalls or the inner filesystem makes
it wait. -/
lemma path_waits (ch : P.Choice) {s : RtState (PathNodeFs.sig P)} {n : ℕ}
    {i : FsInstr (PathNodeFs.sig P)} {M : Multiset PathHeld} (hinv : PathHeld.Inv s.fs M)
    (hallowed : ∃ h, ∀ r, ∃ h', (pathDiscipline P).after i r h = some h')
    (hwait : FsWaits s n (.fs i)) :
    (PathStalls P s i ∨ ∃ j : PathInstr P, i = .own j ∧ s.fs.InnerWaits j) ∨
      ∃ h ∈ M, PathHeld.blocks h (lockStep i) = true := by
  cases i with
  | own i =>
    rcases PathHeld.Inv.waits ch hinv hwait with (hstalls | hinner) | hblocks
    · exact Or.inl (Or.inl hstalls)
    · exact Or.inl (Or.inr ⟨i, rfl, hinner⟩)
    · exact Or.inr hblocks
  | dropRef ref =>
    obtain ⟨h, hafter⟩ := hallowed
    obtain ⟨h', hnone⟩ := hafter ()
    cases hnone
  | _ => exact hwait.elim

/-- The adapter does not deadlock if the calls of the inner filesystem return: leases on handles,
the operations lock and the namespace are never waited for in a cycle, and a request is held up only
by a path that does not end or by a number that has run out. -/
theorem adapter_live (hP : P.Returns) {c : Config (service (pathNodeFs P))}
    (hr : Run anyAction (start (pathNodeFs P)) c) :
    c.Live (PathWaits P) (HeldUp fun s _ i => PathStalls P s i) := by
  refine pathDiscipline_respected.live pathDiscipline_ordered hr ?_
  intro s n i M hinv hallowed hwait
  obtain ⟨ch, _⟩ := hP (.statfs Path.root {}) s.fs.inner
  rcases path_waits ch hinv hallowed hwait with (hstalls | ⟨j, _, hinner⟩) | hblocks
  · exact Or.inl hstalls
  · cases j with
    | inner call =>
      obtain ⟨ch, hch⟩ := hP call s.fs.inner
      exact absurd (hinner ch) hch
    | _ => exact hinner.elim
  · exact Or.inr hblocks

/-- A file is made while another request reads. -/
private def makingWhileReading : List (Action (service PathSample.fs)) :=
  [.issue (.statfs {})] ++ PathSample.steps 0 1 ++ [.issue (PathSample.mknod [97])]

/-- The request that makes the file waits for the one that reads. -/
theorem adapter_live_reading : ∃ c : Config (service PathSample.fs),
    Run anyAction (start PathSample.fs) c ∧ c.state.fs.readers = 1 ∧
      (∀ e, c.next (.step 1 (some e)) = none) ∧
      c.Live (PathWaits PathSample.inner)
        (HeldUp fun s _ i => PathStalls PathSample.inner s i) := by
  have hP : PathSample.inner.Returns :=
    fun _ _ => ⟨({} : PathSample.Entries), Option.some_ne_none _⟩
  have hr : Run anyAction (start PathSample.fs)
      (PathSample.after PathSample.anyCheck makingWhileReading) :=
    PathSample.run_after PathSample.anyAction_of_check makingWhileReading rfl
  exact ⟨_, hr, rfl, fun _ => rfl, adapter_live hP hr⟩

end TypedFuse
