import TypedFuse.Core.ClientCalls
import TypedFuse.Path.Progress

/-!
# A call takes one guard

A call of the adapter takes one guard of the operations lock, at its start: the write guard if it
changes names and a read guard otherwise.  What is left of it later takes none.  `fileOp` computes a
path under its read guard, makes the inner call and drops the guard.
-/

namespace TypedFuse

open Conc Conc.Service TypedFuse.Runtime

variable {P : PathFilesystem}

/-- The calls that take the write guard of the operations lock. -/
def NodeCall.Structural {σ : FsSig} : NodeCall σ → Prop
  | .makeOp _ _ => True
  | .treeOp (.unlink _ _) _ => True
  | .treeOp (.rmdir _ _) _ => True
  | .treeOp (.rename _ _ _ _ flags) _ => flags = 0
  | .create _ _ _ _ _ _ => True
  | _ => False

/-! ## What is left of a call -/

/-- An instruction that a call of another kind than `fileOp` may perform after its first one. -/
def RtInstr.Later : RtInstr (PathNodeFs.sig P) → Prop
  | .fs (.own i) =>
    match (i : PathInstr P) with
    | .writeLock => False
    | .inner (.fileOp _ _ _ _) => False
    | _ => True
  | _ => True

/-- A call of `fileOp` that holds its read guard: it computes a path, makes the inner call and drops
the guard. -/
def Reading (op : FileOp) (handle : P.Payload .file) : RtProg (PathNodeFs.sig P) Unit → Prop
  | .ret _ => False
  | .act i k =>
    (((∃ key, i = PathInstr.rt (.nodeId key)) ∨ ∃ id, i = PathInstr.rt (.pathFor id)) ∧
        ∀ r, Reading op handle (k r)) ∨
      ((∃ path caller, i = PathInstr.rt (.inner (.fileOp op path handle caller))) ∧
        ∀ r, k r = .act (PathInstr.rt .readUnlock) fun _ => .ret ())

/-- What is left of a call after its first instruction. -/
def Rest (call : NodeCall (pathNodeFs P).toFsSig) (p : RtProg (PathNodeFs.sig P) Unit) : Prop :=
  match call with
  | .fileOp op _ handle _ =>
    Reading op handle p ∨ p = .act (PathInstr.rt .readUnlock) (fun _ => .ret ()) ∨ p = .ret ()
  | _ => p.Performs RtInstr.Later

lemma Rest.step {call : NodeCall (pathNodeFs P).toFsSig} {i : RtInstr (PathNodeFs.sig P)}
    {k : i.Resp → RtProg (PathNodeFs.sig P) Unit} (h : Rest call (.act i k)) (r : i.Resp) :
    Rest call (k r) := by
  cases call with
  | fileOp op node handle caller =>
    rcases h with (⟨_, hk⟩ | ⟨_, hk⟩) | h | h
    · exact Or.inl (hk r)
    · exact Or.inr (Or.inl (hk r))
    · cases h
      exact Or.inr (Or.inr rfl)
    · cases h
  | _ => exact h.2 r

/-! ## The callbacks take one guard -/

section Callbacks

variable {α β D : Type}

/-- A part of a callback that takes no write guard and does not call `fileOp`. -/
abbrev Works (p : PathNodeFs.Callback P α) : Prop :=
  p.Performs fun i => RtInstr.Later (.fs i)

namespace Works

lemma bind {p : PathNodeFs.Callback P α} {f : α → PathNodeFs.Callback P β} (hp : Works p)
    (hf : ∀ a, Works (f a)) : Works (p >>= f) :=
  Prog.Performs.bind hp hf

lemma own {i : PathInstr P} (hi : RtInstr.Later i.rt) : Works (PathNodeFs.own i) :=
  Prog.performs_perform hi

lemma onOk {outcome : Fallible α} {next : α → PathNodeFs.Callback P (Fallible β)}
    (hnext : ∀ a, Works (next a)) : Works (PathNodeFs.onOk outcome next) := by
  cases outcome with
  | error e => trivial
  | ok a => exact hnext a

lemma nodePath (node : PathNode) : Works (P := P) (PathNodeFs.nodePath node) := by
  refine ⟨trivial, fun r => ?_⟩
  cases r with
  | none => trivial
  | some id => exact own (i := .pathFor id) trivial

lemma withPath {node : PathNode} {next : Path → PathNodeFs.Callback P (Fallible α)}
    (hnext : ∀ p, Works (next p)) : Works (PathNodeFs.withPath node next) := by
  refine (nodePath node).bind fun r => ?_
  cases r with
  | none => trivial
  | some p => exact hnext p

lemma withPathOf {id : NodeId} {next : Path → PathNodeFs.Callback P (Fallible α)}
    (hnext : ∀ p, Works (next p)) : Works (PathNodeFs.withPathOf id next) := by
  refine ⟨trivial, fun r => ?_⟩
  cases r with
  | none => trivial
  | some p => exact hnext p

lemma insert (parent : NodeId) (name : Name) :
    Works (P := P) (PathNodeFs.insert parent name) := by
  refine ⟨trivial, fun _ => ⟨trivial, fun r => ?_⟩⟩
  cases r with
  | some id => exact ⟨trivial, fun _ => trivial⟩
  | none =>
    exact ⟨trivial, fun _ => ⟨trivial, fun _ => ⟨trivial, fun _ =>
      ⟨trivial, fun _ => trivial⟩⟩⟩⟩

lemma addNode (parent : NodeId) (name : Name) :
    Works (P := P) (PathNodeFs.addNode parent name) :=
  (insert parent name).bind fun _ => trivial

lemma removeLinkOf (removed : Option NodeId) :
    Works (P := P) (PathNodeFs.removeLinkOf removed) := by
  cases removed with
  | none => trivial
  | some id => exact ⟨trivial, fun _ => trivial⟩

lemma removeDentry (d : Dentry) : Works (P := P) (PathNodeFs.removeDentry d) :=
  ⟨trivial, fun _ => ⟨trivial, fun removed =>
    (removeLinkOf removed).bind fun _ => own (i := .nsUnlock) trivial⟩⟩

lemma undo (result : Fallible Unit) (inserted : List Dentry) :
    Works (P := P) (PathNodeFs.undo result inserted) := by
  have hrollback : ∀ ds : List Dentry, Works (P := P) (PathNodeFs.rollback ds) := by
    intro ds
    induction ds with
    | nil => trivial
    | cons d ds ih => exact (removeDentry d).bind fun _ => ih
  unfold PathNodeFs.undo
  split
  · exact hrollback _
  · trivial

lemma enumerate (this parent : NodeId) (name : Name) :
    Works (P := P) (PathNodeFs.enumerate this parent name) :=
  Prog.Performs.ite trivial
    (Prog.Performs.ite trivial ((insert this name).bind fun _ => trivial))

lemma moveDentry (old new : Dentry) : Works (P := P) (PathNodeFs.moveDentry old new) := by
  refine ⟨trivial, fun r => ?_⟩
  cases r with
  | none => trivial
  | some source =>
    refine ⟨trivial, fun target => Prog.Performs.ite trivial ⟨trivial, fun replaced => ?_⟩⟩
    exact (removeLinkOf replaced).bind fun _ =>
      ⟨trivial, fun _ => ⟨trivial, fun _ => ⟨trivial, fun _ => trivial⟩⟩⟩

/-- Run a part under a read guard. -/
lemma reading {body : PathNodeFs.Callback P α} (hbody : Works body) :
    Works (PathNodeFs.reading body) :=
  ⟨trivial, fun _ => hbody.bind fun _ => ⟨trivial, fun _ => trivial⟩⟩

/-- The program of a call. -/
lemma performs {p : PathNodeFs.Callback P α} (hp : Works p) :
    (outcomeless (call (σ := PathNodeFs.sig P) p)).Performs RtInstr.Later :=
  Prog.Performs.outcomeless (Prog.Performs.embed (e := RtInstr.fs)
    (fun _ hi => hi) hp)

/-- A part under the write guard, as the program of a call. -/
lemma writing {body : PathNodeFs.Callback P α} (hbody : Works body) :
    ∃ k, outcomeless (call (σ := PathNodeFs.sig P) (PathNodeFs.writing body)) =
        .act (PathInstr.rt .writeLock) k ∧ ∀ r, (k r).Performs RtInstr.Later :=
  ⟨_, rfl, fun _ => performs (hbody.bind fun _ => ⟨trivial, fun _ => trivial⟩)⟩

end Works

/-- The directory callbacks take no write guard either. -/
lemma later_listDir (node : PathNode) (this parent : NodeId) (takes : ℕ → Bool)
    {list : Path → PathNodeFs.Callback P (Listing D)} (hlist : ∀ p, Works (list p)) :
    (outcomeless (overSink (σ := PathNodeFs.sig P) takes
      (PathNodeFs.listDir node this parent list))).Performs RtInstr.Later := by
  have hin : ∀ {γ : Type} {p : PathNodeFs.Callback P γ}, Works p →
      (FsProg.inDir (D := D) p).Performs fun i => ∀ j, i = .fs j → RtInstr.Later (.fs j) := by
    intro γ p hp
    refine Prog.Performs.embed ?_ hp
    rintro i hi _ ⟨⟩
    exact hi
  have hemit : ∀ (listing : Listing D) (inserted : List Dentry),
      (PathNodeFs.emitAll (P := P) this parent listing inserted).Performs
        fun i => ∀ j, i = .fs j → RtInstr.Later (.fs j) := by
    intro listing
    induction listing with
    | finish result => exact fun _ => trivial
    | emit name data nextOffset next ih =>
      intro inserted
      refine Prog.Performs.bind (hin (Works.enumerate this parent name)) ?_
      rintro ⟨id, dentry⟩
      have hoffer : (PathNodeFs.offer (P := P) name id data nextOffset).Performs
          fun i => ∀ j, i = .fs j → RtInstr.Later (.fs j) :=
        Prog.performs_perform fun _ h => nomatch h
      refine Prog.Performs.bind hoffer fun accepted => ?_
      cases dentry with
      | none => exact ih accepted inserted
      | some d =>
        exact Prog.Performs.ite (ih accepted _)
          (Prog.Performs.bind (hin (Works.removeDentry d)) fun _ => ih accepted inserted)
  refine Prog.Performs.outcomeless (performs_overSink ?_)
  refine Prog.Performs.bind (hin (Works.own (i := .readLock) trivial)) fun _ =>
    Prog.Performs.bind (hin (Works.nodePath node)) ?_
  have hunlock : Works (P := P) (PathNodeFs.own .readUnlock) := Works.own trivial
  intro path
  cases path with
  | none => exact Prog.Performs.bind (hin hunlock) fun _ => trivial
  | some path =>
    refine Prog.Performs.bind (hin (hlist path)) fun listing =>
      Prog.Performs.bind (hemit listing []) ?_
    rintro ⟨result, inserted⟩
    exact Prog.Performs.bind (hin (Works.undo result inserted)) fun _ =>
      Prog.Performs.bind (hin hunlock) fun _ => trivial

end Callbacks

/-! ## Where a call is -/

variable {call : NodeCall (pathNodeFs P).toFsSig}

/-- A structural call takes the write guard first, and never again. -/
lemma callback_structural (hs : call.Structural) :
    ∃ k, (pathNodeFs P).callback call = .act (PathInstr.rt .writeLock) k ∧
      ∀ r, (k r).Performs RtInstr.Later := by
  have hinner : ∀ {α : Type} {c : PathCall P.Payload}
      {next : c.Resp → PathNodeFs.Callback P (Fallible α)},
      RtInstr.Later (PathInstr.rt (.inner c)) → (∀ r, Works (next r)) →
      Works (PathNodeFs.inner c >>= next) :=
    fun hc hnext => (Works.own hc).bind hnext
  have hmake : ∀ (parent : NodeId) (name : Name) (r : Fallible NodeAttr),
      Works (P := P) (PathNodeFs.onOk r fun _ => PathNodeFs.addNode parent name >>= fun id =>
        .ret (.ok id)) :=
    fun parent name r => Works.onOk fun _ => (Works.addNode parent name).bind fun _ => trivial
  have hremoved : ∀ (d : Dentry) (r : Fallible Unit),
      Works (P := P) (PathNodeFs.onOk r fun _ => PathNodeFs.removeDentry d >>= fun _ =>
        .ret (.ok Value.unit)) :=
    fun d r => Works.onOk fun _ => (Works.removeDentry d).bind fun _ => trivial
  cases call with
  | makeOp op caller =>
    cases op with
    | mknod parent name mode rdev umask =>
      exact Works.writing (Works.withPathOf fun _ => hinner trivial (hmake parent name))
    | mkdir parent name mode umask =>
      exact Works.writing (Works.withPathOf fun _ => hinner trivial (hmake parent name))
    | symlink parent name target =>
      exact Works.writing (Works.withPathOf fun _ => hinner trivial (hmake parent name))
    | link id newparent newname =>
      refine Works.writing (Works.withPathOf fun _ => Works.withPathOf fun _ =>
        hinner trivial fun _ => Works.onOk fun _ => ?_)
      exact ⟨trivial, fun _ => ⟨trivial, fun _ => ⟨trivial, fun _ =>
        ⟨trivial, fun _ => trivial⟩⟩⟩⟩
  | treeOp op caller =>
    cases op with
    | unlink parent name =>
      exact Works.writing (Works.withPathOf fun _ => hinner trivial (hremoved ⟨parent, name⟩))
    | rmdir parent name =>
      exact Works.writing (Works.withPathOf fun _ => hinner trivial (hremoved ⟨parent, name⟩))
    | rename parent name newparent newname flags =>
      obtain rfl : flags = 0 := hs
      refine Works.writing (Works.withPathOf fun _ => Works.withPathOf fun _ =>
        hinner trivial fun _ => Works.onOk fun _ => ⟨trivial, fun _ => ?_⟩)
      exact (Works.moveDentry _ _).bind fun _ => ⟨trivial, fun _ => trivial⟩
    | copyFileRange idIn offIn idOut offOut len flags => exact hs.elim
  | create parent name mode umask flags caller =>
    refine Works.writing (Works.withPathOf fun _ => hinner trivial fun _ => Works.onOk fun _ => ?_)
    exact (Works.addNode parent name).bind fun _ => trivial
  | _ => exact hs.elim

/-- `fileOp` takes a read guard first. -/
lemma callback_fileOp (op : FileOp) (node : PathNode) (handle : P.Payload .file)
    (caller : Caller) :
    ∃ k, (pathNodeFs P).callback (.fileOp op node handle caller) =
        .act (PathInstr.rt .readLock) (fun _ => .act (PathInstr.rt (.nodeId node.key)) k) ∧
      ∀ r, Reading op handle (k r) := by
  have hend : ∀ path : Option Path, Reading op handle
      (outcomeless (Runtime.call (σ := PathNodeFs.sig P)
        (PathNodeFs.inner (.fileOp op path handle caller) >>= fun a =>
          PathNodeFs.own .readUnlock >>= fun _ => .ret a))) :=
    fun path => Or.inr ⟨⟨path, caller, rfl⟩, fun _ => rfl⟩
  refine ⟨_, rfl, fun r => ?_⟩
  cases r with
  | none => exact hend none
  | some id => exact Or.inl ⟨Or.inr ⟨id, rfl⟩, fun path => hend path⟩

/-- The other calls take a read guard first or do nothing. -/
lemma callback_other (hs : ¬ call.Structural)
    (hf : ∀ op node handle caller, call ≠ .fileOp op node handle caller) :
    ((pathNodeFs P).callback call = .ret () ∨
      ∃ k, (pathNodeFs P).callback call = .act (PathInstr.rt .readLock) k) ∧
      ((pathNodeFs P).callback call).Performs RtInstr.Later := by
  cases call with
  | fileOp op node handle caller => exact absurd rfl (hf op node handle caller)
  | getattr | setattr | fsyncdir | release =>
    exact ⟨Or.inr ⟨_, rfl⟩, Works.performs (Works.reading
      ((Works.nodePath _).bind fun _ => Works.own trivial))⟩
  | nodeOp | openNode =>
    exact ⟨Or.inr ⟨_, rfl⟩, Works.performs (Works.reading
      (Works.withPath fun _ => Works.own trivial))⟩
  | statfs caller =>
    exact ⟨Or.inr ⟨_, rfl⟩, Works.performs (Works.reading (Works.own trivial))⟩
  | readdir node id parent handle offset takes caller =>
    exact ⟨Or.inr ⟨_, rfl⟩, later_listDir node id parent takes fun _ => Works.own trivial⟩
  | readdirplus node id parent handle offset takes caller =>
    exact ⟨Or.inr ⟨_, rfl⟩, later_listDir node id parent takes fun _ => Works.own trivial⟩
  | lookup parent name caller =>
    refine ⟨Or.inr ⟨_, rfl⟩, Works.performs (Works.reading (Works.withPathOf fun _ =>
      (Works.own (i := .inner (.lookup _ name caller)) trivial).bind fun _ =>
        Works.onOk fun attr => ?_))⟩
    cases attr with
    | none => trivial
    | some _ => exact (Works.addNode parent name).bind fun _ => trivial
  | makeOp op caller => exact absurd trivial hs
  | create parent name mode umask flags caller => exact absurd trivial hs
  | treeOp op caller =>
    cases op with
    | unlink | rmdir => exact absurd trivial hs
    | copyFileRange idIn offIn idOut offOut len flags => exact ⟨Or.inl rfl, trivial⟩
    | rename parent name newparent newname flags =>
      have hrename : (pathNodeFs P).callback
          (.treeOp (.rename parent name newparent newname flags) caller) = .ret () := by
        change outcomeless (Runtime.call (σ := PathNodeFs.sig P)
          (PathNodeFs.rename parent name newparent newname flags caller)) = .ret ()
        rw [PathNodeFs.rename, if_pos (show flags ≠ 0 from hs)]
        rfl
      exact ⟨Or.inl hrename, by rw [hrename]; trivial⟩

/-- A call begins with the guard that it works under. -/
lemma callback_first {i : RtInstr (PathNodeFs.sig P)}
    {k : i.Resp → RtProg (PathNodeFs.sig P) Unit} (h : (pathNodeFs P).callback call = .act i k) :
    (i = PathInstr.rt .readLock ∨ (i = PathInstr.rt .writeLock ∧ call.Structural)) ∧
      ∀ r, Rest call (k r) := by
  by_cases hs : call.Structural
  · obtain ⟨k', hk', hlater⟩ := callback_structural hs
    cases hk'.symm.trans h
    refine ⟨Or.inr ⟨rfl, hs⟩, fun r => ?_⟩
    cases call with
    | fileOp => exact hs.elim
    | _ => exact hlater r
  · cases call with
    | fileOp op node handle caller =>
      obtain ⟨k', hk', hrest⟩ := callback_fileOp op node handle caller
      cases hk'.symm.trans h
      exact ⟨Or.inl rfl, fun _ => Or.inl (Or.inl ⟨Or.inl ⟨node.key, rfl⟩, hrest⟩)⟩
    | _ =>
      obtain ⟨hret | ⟨k', hk'⟩, hlater⟩ := callback_other hs (by simp)
      · cases hret.symm.trans h
      · rw [h] at hlater
        cases hk'.symm.trans h
        exact ⟨Or.inl rfl, hlater.2⟩

/-- What is left of a call: all of it, or what comes after its first instruction. -/
def Along (req : ClientCall (pathNodeFs P).toFsSig) (p : RtProg (PathNodeFs.sig P) Unit) : Prop :=
  p = (pathNodeFs P).callback req.call ∨ Rest req.call p

section Along

variable {req : ClientCall (pathNodeFs P).toFsSig} {i : RtInstr (PathNodeFs.sig P)}
  {k : i.Resp → RtProg (PathNodeFs.sig P) Unit}

lemma Along.step (h : Along req (.act i k)) (r : i.Resp) : Rest req.call (k r) := by
  rcases h with h | h
  · exact (callback_first h.symm).2 r
  · exact h.step r

/-- Only at its start a call asks for the write guard. -/
lemma Rest.ne_writeLock (h : Rest call (.act i k)) : i ≠ PathInstr.rt .writeLock := by
  rintro rfl
  cases call with
  | fileOp op node handle caller =>
    rcases h with (⟨⟨_, h⟩ | ⟨_, h⟩, _⟩ | ⟨⟨_, _, h⟩, _⟩) | h | h
    all_goals cases h
  | _ => exact h.1

/-- Only a structural call does so. -/
lemma Along.structural
    {k : (PathInstr.rt (P := P) .writeLock).Resp → RtProg (PathNodeFs.sig P) Unit}
    (h : Along req (.act (PathInstr.rt .writeLock) k)) :
    req.call.Structural := by
  rcases h with h | h
  · obtain ⟨hi | ⟨_, hs⟩, _⟩ := callback_first h.symm
    · cases hi
    · exact hs
  · exact absurd rfl h.ne_writeLock

/-- Only `fileOp` calls `fileOp` of the inner filesystem. -/
lemma Along.fileOp {op : FileOp} {path : Option Path} {handle : P.Payload .file} {caller : Caller}
    {k : (PathInstr.rt (.inner (.fileOp op path handle caller))).Resp →
      RtProg (PathNodeFs.sig P) Unit}
    (h : Along req (.act (PathInstr.rt (.inner (.fileOp op path handle caller))) k)) :
    ∃ node caller', req.call = .fileOp op node handle caller' := by
  rcases h with h | h
  · obtain ⟨hi | ⟨hi, _⟩, _⟩ := callback_first h.symm
    all_goals cases hi
  · obtain ⟨client, call⟩ := req
    cases call with
    | fileOp op' node handle' caller' =>
      rcases h with (⟨⟨_, h⟩ | ⟨_, h⟩, _⟩ | ⟨⟨_, _, h⟩, _⟩) | h | h
      all_goals cases h
      exact ⟨node, caller', rfl⟩
    | _ => exact h.1.elim

/-- A call of `fileOp` between its first and its last instruction. -/
lemma Along.reading {client : ℕ} {op : FileOp} {node : PathNode} {handle : P.Payload .file}
    {caller : Caller} (h : Along ⟨client, .fileOp op node handle caller⟩ (.act i k))
    (hi : i ≠ PathInstr.rt .readLock) (hi' : i ≠ PathInstr.rt .readUnlock) :
    Reading op handle (.act i k) := by
  rcases h with h | h | h | h
  · obtain ⟨hlock | ⟨_, hs⟩, _⟩ := callback_first h.symm
    · exact absurd hlock hi
    · exact hs.elim
  · exact h
  · cases h
    exact absurd rfl hi'
  · cases h

/-- Its last instruction. -/
lemma Along.readUnlock {client : ℕ} {op : FileOp} {node : PathNode} {handle : P.Payload .file}
    {caller : Caller}
    {k : (PathInstr.rt (P := P) .readUnlock).Resp → RtProg (PathNodeFs.sig P) Unit}
    (h : Along ⟨client, .fileOp op node handle caller⟩ (.act (PathInstr.rt .readUnlock) k)) :
    ∀ r, k r = .ret () := by
  rcases h with h | (⟨⟨_, h⟩ | ⟨_, h⟩, _⟩ | ⟨⟨_, _, h⟩, _⟩) | h | h
  · obtain ⟨hlock | ⟨hlock, _⟩, _⟩ := callback_first h.symm
    all_goals cases hlock
  all_goals cases h
  exact fun _ => rfl

/-- It takes neither guard. -/
lemma Reading.ne_lock {op : FileOp} {handle : P.Payload .file} (h : Reading op handle (.act i k)) :
    i ≠ PathInstr.rt .readLock ∧ i ≠ PathInstr.rt .readUnlock := by
  rcases h with ⟨⟨_, rfl⟩ | ⟨_, rfl⟩, _⟩ | ⟨⟨_, _, rfl⟩, _⟩
  all_goals exact ⟨nofun, nofun⟩

end Along

/-- What a call of the adapter holds after an own step. -/
lemma clientDiscipline_own {i : PathInstr P} {r : i.Resp} {held held' : RtHeld PathHeld}
    (h : (clientDiscipline (pathNodeFs P) (pathDiscipline P)).after i.rt r held = some held') :
    held.own.after (lockStep (.own i)) = some held'.own := by
  obtain ⟨own, hown, rfl⟩ := Option.map_eq_some_iff.mp
    (show (PathHeld.after held.own (lockStep (.own i))).map _ = some held' from h)
  exact hown

/-- It gives back the read guard, so it holds it. -/
lemma Reading.held {op : FileOp} {handle : P.Payload .file} {p : RtProg (PathNodeFs.sig P) Unit}
    (h : Reading op handle p) {held : RtHeld PathHeld}
    (hk : (clientDiscipline (pathNodeFs P) (pathDiscipline P)).Keeps held p
      fun _ h' => h' = ⟨0, PathHeld.free⟩) : held.own = ⟨.read, false⟩ := by
  have huse : ∀ {h h' : PathHeld}, h.after .nsUse = some h' → h = h' := by
    intro h h' heq
    change (if h.ns = false then some h else none) = some h' at heq
    split at heq
    · exact Option.some.inj heq
    · cases heq
  induction p generalizing held with
  | ret a => exact h.elim
  | act i k ih =>
    rcases h with ⟨⟨key, rfl⟩ | ⟨id, rfl⟩, hrest⟩ | ⟨⟨path, caller, rfl⟩, hend⟩
    · obtain ⟨h', hafter, hk'⟩ := hk none
      exact (huse (clientDiscipline_own (i := .nodeId key) hafter)).trans
        (ih none (hrest none) hk')
    · obtain ⟨h', hafter, hk'⟩ := hk none
      exact (huse (clientDiscipline_own (i := .pathFor id) hafter)).trans
        (ih none (hrest none) hk')
    · obtain ⟨h', hafter, hk'⟩ := hk (.error .panic)
      have hown := clientDiscipline_own (i := .inner (.fileOp op path handle caller)) hafter
      have hk'' : (clientDiscipline (pathNodeFs P) (pathDiscipline P)).Keeps h'
          (.act (PathInstr.rt .readUnlock) fun _ => .ret ())
          fun _ h' => h' = ⟨0, PathHeld.free⟩ := hend (.error .panic) ▸ hk'
      obtain ⟨h'', hafter', _⟩ := hk'' ()
      have hown' := clientDiscipline_own (i := .readUnlock) hafter'
      refine (Option.some.inj hown).trans ?_
      by_contra hne
      cases hown'.symm.trans (if_neg hne)

/-- Only a call of the inner filesystem changes its state. -/
lemma inner_of_exec {s s' : RtState (PathNodeFs.sig P)} {n : ℕ} {i : RtInstr (PathNodeFs.sig P)}
    {ch : Option P.Choice} {r : i.Resp} (he : s.exec n i ch = some (r, s')) :
    s'.fs.inner = s.fs.inner ∨ ∃ call c a, i = PathInstr.rt (.inner call) ∧
      P.call call c s.fs.inner = some (a, s'.fs.inner) := by
  have hfree : ∀ {A : Type} {b : Prop} {_ : Decidable b} {x : Option A} {y : A},
      (if b then none else x) = some y → x = some y := by
    intro A b _ x y h
    split at h
    · cases h
    · exact h
  by_cases hown : ∃ j : PathInstr P, i = j.rt
  · obtain ⟨j, rfl⟩ := hown
    obtain ⟨c, f', hexec, rfl⟩ := exec_own he
    cases j with
    | readLock | writeLock | nsLock | nodeId =>
      obtain ⟨_, rfl⟩ := Prod.mk.inj (Option.some.inj (hfree hexec))
      exact Or.inl rfl
    | pathFor id =>
      obtain ⟨_, _, heq⟩ := Option.map_eq_some_iff.mp (hfree hexec)
      obtain ⟨_, rfl⟩ := Prod.mk.inj heq
      exact Or.inl rfl
    | takeKey =>
      obtain ⟨_, _, heq⟩ := Option.map_eq_some_iff.mp hexec
      obtain ⟨_, rfl⟩ := Prod.mk.inj heq
      exact Or.inl rfl
    | inner call =>
      obtain ⟨⟨a, g⟩, hcall, heq⟩ := Option.map_eq_some_iff.mp hexec
      obtain ⟨_, rfl⟩ := Prod.mk.inj heq
      exact Or.inr ⟨call, c, a, rfl, hcall⟩
    | _ =>
      obtain ⟨_, rfl⟩ := Prod.mk.inj (Option.some.inj hexec)
      exact Or.inl rfl
  · left
    by_cases hfs : ∃ j, i = .fs j
    · obtain ⟨j, rfl⟩ := hfs
      rw [fs_execFs (fun o ho => hown ⟨o, congrArg RtInstr.fs ho⟩) he]
    · rw [(calm_exec (fun j hj => hfs ⟨j, hj⟩) he).2]

variable
  {c : Config (clients (pathNodeFs P))}

/-- What is left of a call in a run. -/
lemma along_of_run
    (hr : Run allow (clientsStart (pathNodeFs P)) c) {n id : ℕ}
    {req : ClientCall (pathNodeFs P).toFsSig} {p : RtProg (PathNodeFs.sig P) Unit}
    (ht : c.threads[n]? = some ⟨id, req, .running p⟩) : Along req p :=
  running_of_run (fun _ => Or.inl rfl) (fun r h => Or.inr (h.step r)) hr ht

end TypedFuse
