import TypedFuse.Core.Frame
import TypedFuse.Core.Routing
import TypedFuse.Core.Safety
import TypedFuse.Session.Pages

/-!
# What a request changes

Lookups, opens and registered handles change in few sections, and every kind of request has its own
ones of them (`uses_serve`).  So the handles that are registered after a request that was served
alone can be read off its answer (`registered_iff`), and so can the lookups, unless its callback
unwinds late (`lookups_serves`).
-/

namespace TypedFuse

open Conc Conc.Service NodeTable TypedFuse.Runtime

variable {fs : NodeFs} {n : ℕ} {α β : Type}

/-! ## The sections of a request -/

/-- Every section of a program is neutral or satisfies `P`. -/
def Uses (P : RtInstr fs.toFsSig → Prop) (p : RtProg fs.toFsSig α) : Prop :=
  p.Performs fun i => i.Neutral ∨ P i

namespace Uses

variable {P : RtInstr fs.toFsSig → Prop}

lemma ret (a : α) : Uses P (.ret a) :=
  Prog.performs_ret a

lemma bind {p : RtProg fs.toFsSig α} {f : α → RtProg fs.toFsSig β} (hp : Uses P p)
    (hf : ∀ a, Uses P (f a)) : Uses P (p >>= f) :=
  Prog.Performs.bind hp hf

/-- A section, then the rest. -/
lemma sect {i : RtInstr fs.toFsSig} {f : i.Resp → RtProg fs.toFsSig α} (hi : P i)
    (hf : ∀ r, Uses P (f r)) : Uses P (Runtime.sect i >>= f) :=
  ⟨Or.inr hi, hf⟩

/-- A neutral section, then the rest. -/
lemma neutral {i : RtInstr fs.toFsSig} {f : i.Resp → RtProg fs.toFsSig α} (hi : i.Neutral)
    (hf : ∀ r, Uses P (f r)) : Uses P (Runtime.sect i >>= f) :=
  ⟨Or.inl hi, hf⟩

lemma ite {c : Prop} {_ : Decidable c} {p q : RtProg fs.toFsSig α} (hp : Uses P p)
    (hq : Uses P q) : Uses P (if c then p else q) :=
  Prog.Performs.ite hp hq

/-- A callback of the filesystem. -/
lemma call (p : FsProg fs.toFsSig α) : Uses P (Runtime.call p) :=
  Prog.performs_embed (e := RtInstr.fs) (fun _ => Or.inl trivial) p

/-- The reply to an outcome. -/
lemma reply {p : RtProg fs.toFsSig (Fallible α)} (hp : Uses P p) (reply : α → Reply) :
    Uses P (p >>= fun r => .ret (r.map reply)) :=
  hp.bind fun r => ret (r.map reply)

/-- The callbacks with a sink. -/
lemma handle {D τ : Type} {h : (i : DirInstr fs.toFsSig D) → τ →
    RtProg fs.toFsSig (i.Resp × τ)}
    (hh : ∀ i acc, Uses P (h i acc)) (p : DirProg fs.toFsSig D α) (acc : τ) :
    Uses P (p.handle h acc) :=
  Prog.performs_handle hh p acc

/-- Working on a successful outcome. -/
lemma onOk {r : Fallible α} {next : α → RtProg fs.toFsSig (Fallible β)}
    (hnext : ∀ a, Uses P (next a)) : Uses P (Runtime.onOk r next) := by
  cases r with
  | error e => exact ret _
  | ok a => exact hnext a

/-- The scope of a node. -/
lemma withNode {ino : ℕ} {body : NodeRef fs.Node → RtProg fs.toFsSig (Fallible α)}
    (hbody : ∀ node, Uses P (body node)) : Uses P (Runtime.withNode ino body) := by
  refine neutral (by trivial) ?_
  intro node
  cases node with
  | none => exact ret _
  | some node => exact (hbody node).bind fun a => neutral (by trivial) fun _ => ret a

/-- The scope of a handle. -/
lemma withHandle {k : HandleKind} {ino fh : ℕ}
    {body : fs.Payload k → RtProg fs.toFsSig (Fallible α)}
    (hbody : ∀ payload, Uses P (body payload)) :
    Uses P (Runtime.withHandle k ino fh body) := by
  have hrefused : ∀ record : HandleArc, Uses P
      (do Runtime.sect (.dropArc k record); return (fail .EBADF : Fallible α)) :=
    fun record => neutral (by trivial) fun _ => ret _
  refine neutral (by trivial) ?_
  intro record
  cases record with
  | none => exact ret _
  | some record =>
    refine ite (neutral (by trivial) fun granted => ite ?_ (hrefused record)) (hrefused record)
    refine neutral (by trivial) fun _ => neutral (by trivial) fun payload => ?_
    refine (hbody payload).bind ?_
    intro a
    exact neutral (by trivial) fun _ => neutral (by trivial) fun _ => ret a

/-- The optional handle of `getattr` and `setattr`. -/
lemma withOptionalFile {ino : ℕ} {fh : Option ℕ}
    {body : Option (fs.Payload .file) → RtProg fs.toFsSig (Fallible α)}
    (hbody : ∀ payload, Uses P (body payload)) :
    Uses P (Runtime.withOptionalFile ino fh body) := by
  cases fh with
  | none => exact hbody none
  | some fh => exact withHandle fun payload => hbody (some payload)

/-- `Runtime::entry_for` grants lookups. -/
lemma entryFor (hgrant : ∀ id, P (.grant id)) (id : NodeId) (caller : Caller) :
    Uses P (Runtime.entryFor fs id caller) := by
  refine neutral (by trivial) fun _ => neutral (by trivial) ?_
  intro node
  cases node with
  | none => exact ret _
  | some node =>
    refine (call _).bind ?_
    intro r
    cases r with
    | error e => exact neutral (by trivial) fun _ => ret _
    | ok attr =>
      refine sect (hgrant id) ?_
      intro generation
      cases generation with
      | none => exact neutral (by trivial) fun _ => ret _
      | some generation => exact neutral (by trivial) fun _ => ret _

/-- Forgetting lookups. -/
lemma forgetAll (hforget : ∀ id m, P (.forget id m)) (ids : List NodeId) :
    Uses P (Runtime.forgetAll ids) := by
  induction ids with
  | nil => exact ret ()
  | cons id ids ih => exact sect (hforget id 1) fun _ => ih

/-- The sink of `readdirplus` retains lookups. -/
lemma add (hretain : ∀ id, P (.retainLookup id)) (sink : Sink PlusEntry) (acc : Accounting)
    (name : Name) (id : NodeId) (attr : NodeAttr) (nextOffset : ℕ) :
    Uses P (Accounting.add sink acc name id attr nextOffset) := by
  refine neutral (by trivial) ?_
  intro generation
  cases generation with
  | none => exact ret _
  | some generation =>
    refine ite (ite (Uses.sect (hretain id) fun r => ?_) (ret _)) (ret _)
    cases r with
    | none => exact ret _
    | some _ => exact ret _

/-- `HandleRecord::close_and_take`. -/
lemma closeAndTake (k : HandleKind) (record : HandleArc) :
    Uses P (Runtime.closeAndTake k record) := by
  have htake : Uses P (Runtime.sect (.take k record)) := neutral (by trivial) fun h => ret h
  exact neutral (by trivial) fun drained => ite htake (neutral (by trivial) fun _ => htake)

end Uses

/-- The sections by which a request changes lookups, opens or registered handles. -/
def Request.Sections {σ : FsSig} : Request → RtInstr σ → Prop
  | .lookup _ _ _, .grant _ => True
  | .makeOp _ _, .grant _ => True
  | .create _ _ _ _ _ _, .grant _ => True
  | .create _ _ _ _ _ _, .addOpen _ => True
  | .create _ _ _ _ _ _, .addHandle _ _ _ => True
  | .openNode _ _ _ _, .addOpen _ => True
  | .openNode _ _ _ _, .addHandle _ _ _ => True
  | .release _ _ _ _, .removeHandle _ _ _ => True
  | .release _ _ _ _, .removeOpen _ => True
  | .readdirplus _ _ _ _ _, .retainLookup _ => True
  | .readdirplus _ _ _ _ _, .forget _ _ => True
  | .forget _ _, .forget _ _ => True
  | _, _ => False

/-- A request has no other such sections. -/
lemma uses_serve (req : Request) : Uses req.Sections (serve fs req) := by
  cases req with
  | populate => exact (Uses.call _).bind fun _ => Uses.ret _
  | forget ino nlookup => exact Uses.sect (by trivial) fun _ => Uses.ret _
  | statfs caller => exact (Uses.call _).reply _
  | treeOp op caller => exact (Uses.call _).reply _
  | getattr ino fh caller =>
    exact (Uses.withNode fun _ => Uses.withOptionalFile fun _ => Uses.call _).reply _
  | setattr ino fh set caller =>
    exact (Uses.withNode fun _ => Uses.withOptionalFile fun _ => Uses.call _).reply _
  | nodeOp op ino caller => exact (Uses.withNode fun _ => Uses.call _).reply _
  | fileOp op ino fh caller =>
    exact (Uses.withNode fun _ => Uses.withHandle fun _ => Uses.call _).reply _
  | fsyncdir ino fh datasync caller =>
    exact (Uses.withNode fun _ => Uses.withHandle fun _ => Uses.call _).reply _
  | lookup parent name caller =>
    refine Uses.reply ((Uses.call _).bind fun r => Uses.onOk ?_) _
    intro found
    cases found with
    | none => exact Uses.ret _
    | some id => exact (Uses.entryFor (fun _ => trivial) id caller).bind fun _ => Uses.ret _
  | makeOp op caller =>
    refine Uses.reply ((Uses.call _).bind fun r => Uses.onOk ?_) _
    exact fun id => Uses.entryFor (fun _ => trivial) id caller
  | openNode k ino flags caller =>
    refine Uses.reply (Uses.withNode fun node => (Uses.call _).bind fun r => Uses.onOk ?_) _
    intro opened
    exact Uses.sect (by trivial) fun live => Uses.ite
      (Uses.sect (by trivial) fun _ => Uses.ret _) (Uses.neutral (by trivial) fun _ => Uses.ret _)
  | create parent name mode umask flags caller =>
    refine Uses.reply ((Uses.call _).bind fun r => Uses.onOk ?_) _
    rintro ⟨id, opened⟩
    refine (Uses.entryFor (fun _ => trivial) id caller).bind ?_
    intro entry
    cases entry with
    | error e => exact Uses.neutral (by trivial) fun _ => Uses.ret _
    | ok entry =>
      exact Uses.sect (by trivial) fun live => Uses.ite
        (Uses.sect (by trivial) fun _ => Uses.ret _)
        (Uses.neutral (by trivial) fun _ => Uses.neutral (by trivial) fun _ => Uses.ret _)
  | release k ino fh caller =>
    refine Uses.reply (Uses.sect (by trivial) ?_) _
    intro record
    cases record with
    | none => exact Uses.ret _
    | some record =>
      refine Uses.bind (Uses.withNode fun node => Uses.sect (by trivial) fun _ => ?_)
        fun _ => Uses.neutral (by trivial) fun _ => Uses.ret _
      exact (Uses.closeAndTake k record).bind fun _ => Uses.call _
  | readdir ino fh offset sink caller =>
    refine Uses.reply (Uses.withNode fun node => Uses.neutral (by trivial) fun parent => ?_) _
    cases parent with
    | none => exact Uses.ret _
    | some parent =>
      refine Uses.withHandle fun handle => Uses.bind (Uses.handle (fun i acc => ?_) _ _)
        fun _ => Uses.ret _
      cases i with
      | fs i => exact Uses.neutral (by trivial) fun _ => Uses.ret _
      | add name id kind nextOffset => exact Uses.ret _
  | readdirplus ino fh offset sink caller =>
    change Uses _ (Runtime.readdirplus fs ino fh offset sink caller >>= _)
    rw [readdirplus_eq]
    refine Uses.reply (Uses.withNode fun node => Uses.neutral (by trivial) fun parent => ?_) _
    cases parent with
    | none => exact Uses.ret _
    | some parent =>
      refine Uses.withHandle fun handle => Uses.bind (Uses.handle (fun i acc => ?_) _ _) fun r => ?_
      · cases i with
        | fs i => exact Uses.neutral (by trivial) fun _ => Uses.ret _
        | add name id attr nextOffset =>
          exact Uses.add (fun _ => trivial) sink acc name id attr nextOffset
      · obtain ⟨r, acc⟩ := r
        match r with
        | .ok _ => exact Uses.ret _
        | .error (.errno e) =>
          exact (Uses.forgetAll (fun _ _ => trivial) _).bind fun _ => Uses.ret _
        | .error .panic => exact Uses.neutral (by trivial) fun _ => Uses.ret _

/-- What the sections of a program keep, it keeps. -/
lemma Uses.keeps {P : RtInstr fs.toFsSig → Prop} {p : RtProg fs.toFsSig α} (hp : Uses P p)
    {I : RtState fs.toFsSig → Prop}
    (hstep : ∀ i ch (r : RtInstr.Resp i) s s', i.Neutral ∨ P i →
      (service fs).exec n i ch s = some (r, s') → I s → I s')
    {s : RtState fs.toFsSig} (hs : I s) :
    (service fs).Ensures n s p fun _ s' => I s' := by
  induction p generalizing s with
  | ret a => exact hs
  | act i k ih => exact fun ch r s' he => ih r (hp.2 r) (hstep i ch r s s' hp.1 he hs)

/-! ## Registered handles -/

/-- The handle that an answer hands to the kernel: its kind, its inode and its number. -/
def handed : Request → Fallible Reply → Option (HandleKind × ℕ × ℕ)
  | .openNode k ino _ _, .ok (.opened fh _) => some (k, ino, fh)
  | .create _ _ _ _ _ _, .ok (.created e fh _) => some (.file, e.reply.ino, fh)
  | _, _ => none

/-- The handles that are registered after a request: the one that it hands out is new, and the one
that it releases is gone. -/
def Registers (hs : Handles fs.Payload) (req : Request) (a : Fallible Reply)
    (hs' : Handles fs.Payload) : Prop :=
  match handed req a with
  | some (k, ino, fh) => fh = hs.nextFh ∧
    hs'.table = Function.update hs.table k ((hs.table k).insert fh ⟨fh, ino⟩)
  | none =>
    match req with
    | .release k ino fh _ => hs'.table = (hs.remove k ino fh).2.table
    | _ => hs'.table = hs.table

/-- The same handles are registered, and the next one has the same number. -/
def SameRegistry {P : HandleKind → Type} (hs hs' : Handles P) : Prop :=
  hs'.table = hs.table ∧ hs'.nextFh = hs.nextFh

/-- The section registers and removes no handle. -/
def RtInstr.KeepsHandles {σ : FsSig} : RtInstr σ → Prop
  | .addHandle _ _ _ | .removeHandle _ _ _ => False
  | _ => True

lemma RtInstr.Neutral.keepsHandles {σ : FsSig} {i : RtInstr σ} (h : i.Neutral) :
    i.KeepsHandles := by
  cases i with
  | addHandle | removeHandle => exact h
  | _ => trivial

/-- A section that registers and removes no handle. -/
lemma SameRegistry.exec {hs : Handles fs.Payload} {s s' : RtState fs.toFsSig}
    (h : SameRegistry hs s.handles) {i : RtInstr fs.toFsSig} {ch : Option fs.Choice} {r : i.Resp}
    (hi : i.KeepsHandles) (he : (service fs).exec n i ch s = some (r, s')) :
    SameRegistry hs s'.handles := by
  have hsame : Handles.SameTable s.handles s'.handles := by
    refine sameTable_exec ?_ ?_ he
    · rintro k node payload rfl
      exact hi
    · rintro k ino fh rfl
      exact hi
  exact ⟨hsame.table.trans h.1, hsame.nextFh.trans h.2⟩

/-- A program that registers and removes no handle. -/
lemma SameRegistry.uses {P : RtInstr fs.toFsSig → Prop} (hP : ∀ i, P i → i.KeepsHandles)
    {p : RtProg fs.toFsSig α} (hp : Uses P p) {hs : Handles fs.Payload} {s : RtState fs.toFsSig}
    (h : SameRegistry hs s.handles) :
    (service fs).Ensures n s p fun _ s' => SameRegistry hs s'.handles := by
  refine hp.keeps ?_ h
  intro i ch r s s' hi he hsame
  exact hsame.exec (hi.elim RtInstr.Neutral.keepsHandles (hP i)) he

/-- A program of neutral sections. -/
lemma SameRegistry.neutral {p : RtProg fs.toFsSig α} (hp : Uses (fun _ => False) p)
    {hs : Handles fs.Payload} {s : RtState fs.toFsSig} (h : SameRegistry hs s.handles) :
    (service fs).Ensures n s p fun _ s' => SameRegistry hs s'.handles :=
  h.uses (fun _ hfalse => hfalse.elim) hp

/-- Registering a handle. -/
lemma registers_add {hs : Handles fs.Payload} {s : RtState fs.toFsSig}
    (h : SameRegistry hs s.handles) {k : HandleKind} {node : NodeId} {payload : fs.Payload k}
    {β : Type} {f : ℕ → RtProg fs.toFsSig β} {Q : β → RtState fs.toFsSig → Prop}
    (hf : ∀ s', s'.handles.table = Function.update hs.table k
        ((hs.table k).insert hs.nextFh ⟨hs.nextFh, node⟩) →
      (service fs).Ensures n s' (f hs.nextFh) Q) :
    (service fs).Ensures n s (Runtime.sect (.addHandle k node payload) >>= f) Q := by
  refine Ensures.step ?_
  intro ch fh s' he
  obtain ⟨⟨fh', hs'⟩, hadd, heq⟩ := Option.map_eq_some_iff.mp he
  obtain ⟨rfl, rfl⟩ := Prod.mk.inj heq
  unfold Handles.add at hadd
  split at hadd
  · obtain ⟨rfl, rfl⟩ := Prod.mk.inj (Option.some.inj hadd)
    rw [h.2]
    refine hf _ ?_
    change Function.update s.handles.table k _ = _
    rw [h.1]
  · cases hadd

/-- What a program that opens a handle has registered when it returns. -/
def OpensOne (hs : Handles fs.Payload) (k : HandleKind) (opened : α → ℕ × ℕ)
    (r : Fallible α) (s : RtState fs.toFsSig) : Prop :=
  match r with
  | .ok a => (opened a).2 = hs.nextFh ∧ s.handles.table =
      Function.update hs.table k ((hs.table k).insert (opened a).2 ⟨(opened a).2, (opened a).1⟩)
  | .error _ => s.handles.table = hs.table

/-- Counting the open and registering the handle, or giving up. -/
lemma opensOne_add {hs : Handles fs.Payload} {s : RtState fs.toFsSig}
    (h : SameRegistry hs s.handles) (k : HandleKind) (node : NodeId) (payload : fs.Payload k)
    {opened : α → ℕ × ℕ} (ok : ℕ → α)
    (hok : ∀ fh, opened (ok fh) = (node, fh)) {orElse : RtProg fs.toFsSig (Fallible α)}
    (hneutral : Uses (fun _ => False) orElse)
    (hfails : orElse.Returns fun r => ∃ e, r = .error e) :
    (service fs).Ensures n s (Runtime.sect (.addOpen node) >>= fun live : Bool =>
      if live then Runtime.sect (.addHandle k node payload) >>= fun fh => .ret (.ok (ok fh))
      else orElse) (OpensOne hs k opened) := by
  refine Ensures.step ?_
  intro ch live s₁ he
  have h₁ := h.exec (by trivial) he
  cases live with
  | true =>
    refine registers_add h₁ ?_
    intro s₂ htable
    refine Ensures.ret ?_
    change (opened (ok hs.nextFh)).2 = hs.nextFh ∧ (s₂ : RtState fs.toFsSig).handles.table =
      Function.update hs.table k ((hs.table k).insert (opened (ok hs.nextFh)).2
        ⟨(opened (ok hs.nextFh)).2, (opened (ok hs.nextFh)).1⟩)
    rw [hok]
    exact ⟨rfl, htable⟩
  | false =>
    refine ((h₁.neutral hneutral).returns hfails).mono ?_
    rintro r s₂ ⟨⟨e, rfl⟩, h₂⟩
    exact h₂.1

/-- `open` and `opendir`. -/
lemma opensOne_openNode {hs : Handles fs.Payload} {s : RtState fs.toFsSig}
    (h : SameRegistry hs s.handles) (k : HandleKind) (ino : ℕ) (flags : ℤ) (caller : Caller) :
    (service fs).Ensures n s (Runtime.openNode fs k ino flags caller)
      (OpensOne hs k fun o => (ino, o.1)) := by
  refine Ensures.step ?_
  intro ch r s₁ he₁
  have h₁ := h.exec (by trivial) he₁
  cases r with
  | none => exact Ensures.ret h₁.1
  | some ref =>
    refine Ensures.bind (Q := OpensOne hs k fun o => (ino, o.1)) ?_ ?_
    · refine Ensures.bind (h₁.neutral (Uses.call _)) ?_
      intro r s₂ h₂
      cases r with
      | error e => exact Ensures.ret h₂.1
      | ok opened =>
        exact opensOne_add h₂ k ino opened.handle (fun fh => (fh, opened.hints)) (fun _ => rfl)
          (Uses.neutral (by trivial) fun _ => Uses.ret _) fun _ => ⟨_, rfl⟩
    · intro r s₂ h₂
      refine Ensures.step ?_
      intro ch _ s₃ he₃
      have htable := (sameTable_exec (by simp) (by simp) he₃).table
      refine Ensures.ret ?_
      cases r with
      | error e => exact htable.trans h₂
      | ok o => exact ⟨h₂.1, htable.trans h₂.2⟩

/-- `create`. -/
lemma opensOne_create {hs : Handles fs.Payload} {s : RtState fs.toFsSig}
    (h : SameRegistry hs s.handles) (parent : ℕ) (name : Name) (mode umask : ℕ) (flags : ℤ)
    (caller : Caller) :
    (service fs).Ensures n s (Runtime.create fs parent name mode umask flags caller)
      (OpensOne hs .file fun c => (c.1.reply.ino, c.2.1)) := by
  refine Ensures.bind (h.neutral (Uses.call _)) ?_
  intro r s₁ h₁
  cases r with
  | error e => exact Ensures.ret h₁.1
  | ok made =>
    obtain ⟨id, opened⟩ := made
    have hentry := h₁.uses (n := n) (P := fun i => ∃ id, i = .grant id)
      (by rintro i ⟨id, rfl⟩; trivial) (Uses.entryFor (fun id => ⟨id, rfl⟩) id caller)
    refine Ensures.bind (hentry.returns (returns_entryFor id caller)) ?_
    rintro entry s₂ ⟨hino, h₂⟩
    cases entry with
    | error e =>
      refine Ensures.step fun ch _ s₃ he => Ensures.ret ?_
      exact (sameTable_exec (by simp) (by simp) he).table.trans h₂.1
    | ok entry =>
      exact opensOne_add h₂ .file id opened.handle (fun fh => (entry, fh, opened.hints))
        (fun _ => by rw [hino entry rfl])
        (Uses.neutral (by trivial) fun _ => Uses.neutral (by trivial) fun _ => Uses.ret _)
        fun _ _ => ⟨_, rfl⟩

/-- Removing a handle depends on the registered handles only. -/
lemma table_remove {hs hs' : Handles fs.Payload} (h : hs'.table = hs.table) (k : HandleKind)
    (ino fh : ℕ) : (hs'.remove k ino fh).2.table = (hs.remove k ino fh).2.table := by
  unfold Handles.remove
  rw [h]
  split
  · exact h
  · split
    · rfl
    · exact h

/-- A request that hands out and releases nothing registers nothing. -/
lemma registers_of_same {hs hs' : Handles fs.Payload} (h : SameRegistry hs hs') {req : Request}
    {a : Fallible Reply} (hnone : handed req a = none)
    (hrel : ∀ k ino fh caller, req ≠ .release k ino fh caller) : Registers hs req a hs' := by
  unfold Registers
  rw [hnone]
  cases req with
  | release k ino fh caller => exact absurd rfl (hrel k ino fh caller)
  | _ => exact h.1

/-- Every request registers and releases what its answer says. -/
lemma registers_serve {hs : Handles fs.Payload} (n : ℕ) (req : Request) {s : RtState fs.toFsSig}
    (hsame : SameRegistry hs s.handles) :
    (service fs).Ensures n s (serve fs req) fun a s' => Registers hs req a s'.handles := by
  cases req with
  | openNode k ino flags caller =>
    refine Ensures.bind (opensOne_openNode hsame k ino flags caller) ?_
    intro r s' h
    refine Ensures.ret ?_
    cases r with
    | error e => exact h
    | ok o => exact h
  | create parent name mode umask flags caller =>
    refine Ensures.bind (opensOne_create hsame parent name mode umask flags caller) ?_
    intro r s' h
    refine Ensures.ret ?_
    cases r with
    | error e => exact h
    | ok c => exact h
  | release k ino fh caller =>
    refine Ensures.bind (Q := fun _ (s' : RtState fs.toFsSig) =>
      s'.handles.table = (hs.remove k ino fh).2.table) ?_ fun _ _ h => Ensures.ret h
    refine Ensures.step ?_
    intro ch r s₁ he
    obtain ⟨rfl, rfl⟩ := Prod.mk.inj (Option.some.inj he)
    have htable := table_remove hsame.1 k ino fh
    cases (s.handles.remove k ino fh).1 with
    | none => exact Ensures.ret htable
    | some record =>
      have hrest : Uses (fun i => ∃ ino, i = .removeOpen ino)
          (Runtime.withNode ino (fun node => do
            Runtime.sect (.removeOpen ino)
            let handle ← closeAndTake k record
            Runtime.call (fs.release k node.record.payload handle caller)) >>= fun result => do
              Runtime.sect (.dropArc k record)
              return result) := by
        refine Uses.bind (Uses.withNode fun node => Uses.sect ⟨ino, rfl⟩ fun _ => ?_)
          fun _ => Uses.neutral (by trivial) fun _ => Uses.ret _
        exact (Uses.closeAndTake k record).bind fun _ => Uses.call _
      refine (SameRegistry.uses ?_ hrest
        (show SameRegistry (s.handles.remove k ino fh).2 _ from ⟨rfl, rfl⟩)).mono ?_
      · rintro i ⟨ino, rfl⟩
        trivial
      · exact fun _ _ h => h.1.trans htable
  | populate | forget | statfs | getattr | setattr | nodeOp | fileOp | fsyncdir | readdir
  | readdirplus | lookup | makeOp | treeOp =>
    refine (hsame.uses (P := Request.Sections _) ?_ (uses_serve _)).mono ?_
    · intro i hi
      cases i with
      | addHandle | removeHandle => exact hi
      | _ => trivial
    · intro a s' h
      exact registers_of_same h rfl fun _ _ _ _ heq => nomatch heq

/-- The handle that a request takes back. -/
def released : Request → Option (HandleKind × ℕ × ℕ)
  | .release k ino fh _ => some (k, ino, fh)
  | _ => none

/-- A number is registered for an inode. -/
def Handles.Registered {P : HandleKind → Type} (hs : Handles P) (x : HandleKind × ℕ × ℕ) :
    Prop :=
  ∃ arc, (hs.table x.1).lookup x.2.2 = some arc ∧ arc.node = x.2.1

lemma not_registered_next {P : HandleKind → Type} {hs : Handles P}
    (hfresh : ∀ k, (hs.table k).lookup hs.nextFh = none) (k : HandleKind) (ino : ℕ) :
    ¬ hs.Registered (k, ino, hs.nextFh) := by
  rintro ⟨arc, harc, _⟩
  rw [hfresh k] at harc
  cases harc

/-- Registering a handle under a fresh number. -/
lemma registered_insert {P : HandleKind → Type} {hs hs' : Handles P}
    (hfresh : ∀ k, (hs.table k).lookup hs.nextFh = none) {k : HandleKind} {ino : ℕ}
    (h : hs'.table =
      Function.update hs.table k ((hs.table k).insert hs.nextFh ⟨hs.nextFh, ino⟩))
    (x : HandleKind × ℕ × ℕ) :
    hs'.Registered x ↔ x = (k, ino, hs.nextFh) ∨ hs.Registered x := by
  obtain ⟨k', ino', fh'⟩ := x
  unfold Handles.Registered
  rw [h]
  by_cases hk : k' = k
  · subst hk
    simp only [Function.update_self, BTreeMap.lookup_insert_ite]
    by_cases hfh : fh' = hs.nextFh
    · subst hfh
      simp [hfresh, eq_comm]
    · simp [hfh]
  · simp [hk]

/-- Removing a handle. -/
lemma registered_remove {P : HandleKind → Type} {hs : Handles P} (k : HandleKind) (ino fh : ℕ)
    (x : HandleKind × ℕ × ℕ) :
    (hs.remove k ino fh).2.Registered x ↔ hs.Registered x ∧ x ≠ (k, ino, fh) := by
  obtain ⟨k', ino', fh'⟩ := x
  unfold Handles.remove
  split
  · next hnone =>
    refine ⟨fun hx => ⟨hx, ?_⟩, And.left⟩
    rintro heq
    obtain ⟨arc, harc, _⟩ := hx
    cases heq
    rw [hnone] at harc
    cases harc
  · next arc harc =>
    split
    · next hnode =>
      unfold Handles.Registered
      by_cases hk : k' = k
      · subst hk
        simp only [Function.update_self, BTreeMap.lookup_erase_ite]
        by_cases hfh : fh' = fh
        · subst hfh
          simp [harc, hnode, eq_comm]
        · simp [hfh]
      · simp [hk]
    · next hnode =>
      refine ⟨fun hx => ⟨hx, ?_⟩, And.left⟩
      rintro heq
      obtain ⟨arc', harc', hnode'⟩ := hx
      cases heq
      rw [harc] at harc'
      cases harc'
      exact hnode hnode'

/-- The handles that are registered after a request are those that it hands out and those that were
registered before and that it does not take back. -/
lemma registered_iff {hs hs' : Handles fs.Payload} {req : Request} {a : Fallible Reply}
    (hfresh : ∀ k, (hs.table k).lookup hs.nextFh = none) (h : Registers hs req a hs')
    (x : HandleKind × ℕ × ℕ) :
    hs'.Registered x ↔ x ∈ handed req a ∨ hs.Registered x ∧ x ∉ released req := by
  unfold Registers at h
  split at h
  · next k ino fh hhanded =>
    obtain ⟨rfl, htable⟩ := h
    have hreleased : released req = none := by
      cases req with
      | release k ino fh caller => cases hhanded
      | _ => rfl
    rw [registered_insert hfresh htable, hhanded, hreleased]
    simp [eq_comm]
  · next hnone =>
    rw [hnone]
    split at h
    · next k ino fh caller =>
      have hsame : hs'.Registered x ↔ (hs.remove k ino fh).2.Registered x := by
        unfold Handles.Registered
        rw [h]
      rw [hsame, registered_remove]
      simp [released, eq_comm]
    · next hreq =>
      have hreleased : released req = none := by
        cases req with
        | release k ino fh caller => exact absurd rfl (hreq k ino fh caller)
        | _ => rfl
      unfold Handles.Registered
      rw [h, hreleased]
      simp

/-! ## Requests that are served alone -/

section Served

variable {c c' : Config (service fs)} {req : Request} {a : Fallible Reply}

/-- Only a `forget` changes what the kernel holds when it is sent. -/
lemma issue_eq (hforget : ∀ ino m, req ≠ .forget ino m) (s : RtState fs.toFsSig) :
    Runtime.issue n req s = s := by
  cases req with
  | forget ino m => exact absurd rfl (hforget ino m)
  | _ => rfl

/-- Another request than `forget` runs from the state before it. -/
lemma alone_of_serves (hforget : ∀ ino m, req ≠ .forget ino m) (h : Serves c req a c') :
    ∃ s', Alone (service fs) c.threads.length (serve fs req) c.state a s' ∧
      c'.state.table = s'.table := by
  obtain ⟨s, s', hissue, halone, rfl⟩ := h
  obtain rfl : c.state = s := (issue_eq hforget _).symm.trans (Option.some.inj hissue)
  exact ⟨s', halone, rfl⟩

lemma serves_of_alone {s' : RtState fs.toFsSig} (hforget : ∀ ino m, req ≠ .forget ino m)
    (h : Alone (service fs) c.threads.length (serve fs req) c.state a s') :
    ∃ c', Serves c req a c' ∧ c'.state.table = s'.table :=
  ⟨_, ⟨c.state, s', congrArg some (issue_eq hforget c.state), h, rfl⟩, rfl⟩

/-- Serving a `forget` alone. -/
lemma serves_forget {ino m : ℕ} (h : Serves c (.forget ino m) a c') :
    a = .ok .unit ∧ c'.state.table = c.state.table.forget ino m ∧
      c'.state.handles = c.state.handles := by
  obtain ⟨s, s', hissue, halone, rfl⟩ := h
  obtain rfl := Option.some.inj hissue
  cases halone with
  | act he hk =>
    obtain ⟨_, rfl⟩ := Prod.mk.inj (Option.some.inj he)
    change Alone (service fs) c.threads.length (.ret (.ok .unit)) _ a s' at hk
    cases hk
    exact ⟨rfl, rfl, rfl⟩

lemma run_serves (hr : Run anyAction (start fs) c) (h : Serves c req a c') :
    Run anyAction (start fs) c' :=
  hr.trans (h.run trivial (fun _ _ _ => trivial) fun _ _ => trivial)

/-- The handles that are registered after a request. -/
lemma registers_serves (h : Serves c req a c') :
    Registers c.state.handles req a c'.state.handles := by
  obtain ⟨s, s', hissue, halone, rfl⟩ := h
  obtain rfl := Option.some.inj hissue
  have hsame : SameRegistry c.state.handles
      (Runtime.issue c.threads.length req c.state).handles := by
    cases req with
    | _ => exact ⟨rfl, rfl⟩
  exact alone_iff_wp.mp (registers_serve _ req hsame) a s' halone

end Served

/-! ## Lookups -/

/-- The section changes no lookups. -/
def RtInstr.KeepsLookups {σ : FsSig} : RtInstr σ → Prop
  | .grant _ | .retainLookup _ | .forget _ _ => False
  | _ => True

lemma RtInstr.Neutral.keepsLookups {σ : FsSig} {i : RtInstr σ} (h : i.Neutral) :
    i.KeepsLookups := by
  cases i with
  | grant | retainLookup | forget => exact h
  | _ => trivial

/-- A section that changes no lookups. -/
lemma Looked.exec {s₀ s s' : RtState fs.toFsSig} {A : List NodeId} (h : Looked s₀ s A)
    {i : RtInstr fs.toFsSig} {ch : Option fs.Choice} {r : i.Resp} (hi : i.KeepsLookups)
    (he : (service fs).exec n i ch s = some (r, s')) : Looked s₀ s' A := by
  refine ⟨wf_exec h.wf he, ?_⟩
  intro j
  rw [← h.lookups]
  cases i with
  | grant | retainLookup | forget => exact absurd hi id
  | addOpen ino =>
    obtain ⟨⟨b, t⟩, hadd, heq⟩ := Option.map_eq_some_iff.mp he
    obtain ⟨_, rfl⟩ := Prod.mk.inj heq
    obtain ⟨⟨o, t'⟩, hinc, heq'⟩ := Option.map_eq_some_iff.mp hadd
    obtain ⟨_, rfl⟩ := Prod.mk.inj heq'
    exact count_incr_ne hinc (by decide)
  | removeOpen ino =>
    obtain ⟨_, rfl⟩ := Prod.mk.inj (Option.some.inj he)
    exact count_decr_ne s.table 1 (by decide)
  | addHandle k node payload =>
    obtain ⟨_, _, heq⟩ := Option.map_eq_some_iff.mp he
    obtain ⟨_, rfl⟩ := Prod.mk.inj heq
    rfl
  | removeHandle k ino fh =>
    obtain ⟨_, rfl⟩ := Prod.mk.inj (Option.some.inj he)
    rfl
  | fs | node | lease | dropNode | denote | plusEntry | leak | parentOf | discard | findHandle
  | acquire | deref | dropLease | dropArc | close | drain | take =>
    exact (untouched_exec h.wf (by trivial) he).count .lookups (Or.inl rfl) j

/-- The lookups that an answer gives to the kernel. -/
def givenBy : Fallible Reply → List NodeId
  | .ok r => r.given
  | .error _ => []

/-- A `readdirplus`. -/
def Request.Lists : Request → Prop
  | .readdirplus _ _ _ _ _ => True
  | _ => False

/-- Only requests that grant something give lookups, and only `readdirplus` has retained any. -/
lemma returns_serve (req : Request) : (serve fs req).Returns fun a =>
    (¬ req.Grants → givenBy a = []) ∧ (¬ req.Lists → retainedBy a = []) := by
  have hreply : ∀ {α : Type} {P : Fallible Reply → Prop} (p : RtProg fs.toFsSig (Fallible α))
      {reply : α → Reply}, (∀ e, P (.error e)) → (∀ a, P (.ok (reply a))) →
      (p >>= fun r => .ret (r.map reply)).Returns P := by
    intro α P p reply herror hok
    refine Prog.returns_bind fun r => ?_
    cases r with
    | error e => exact herror e
    | ok a => exact hok a
  have hplain : ∀ {α : Type} (p : RtProg fs.toFsSig (Fallible α)) {reply : α → Reply},
      (∀ a, (reply a).given = [] ∧ retainedBy (.ok (reply a)) = []) →
      (p >>= fun r => .ret (r.map reply)).Returns fun a =>
        (¬ req.Grants → givenBy a = []) ∧ (¬ req.Lists → retainedBy a = []) := by
    intro α p reply hnone
    exact hreply p (fun _ => ⟨fun _ => rfl, fun _ => rfl⟩)
      fun a => ⟨fun _ => (hnone a).1, fun _ => (hnone a).2⟩
  have hentry : ∀ {α : Type} (p : RtProg fs.toFsSig (Fallible α)) {reply : α → Reply},
      req.Grants → (∀ a, retainedBy (.ok (reply a)) = []) →
      (p >>= fun r => .ret (r.map reply)).Returns fun a =>
        (¬ req.Grants → givenBy a = []) ∧ (¬ req.Lists → retainedBy a = []) := by
    intro α p reply hreq hnone
    exact hreply p (fun _ => ⟨fun _ => rfl, fun _ => rfl⟩)
      fun a => ⟨fun h => absurd hreq h, fun _ => hnone a⟩
  cases req with
  | populate => exact Prog.returns_bind fun _ => ⟨fun _ => rfl, fun _ => rfl⟩
  | forget ino nlookup => exact Prog.returns_bind fun _ => ⟨fun _ => rfl, fun _ => rfl⟩
  | statfs | getattr | setattr | nodeOp | fileOp | fsyncdir | openNode | release | readdir
  | treeOp => exact hplain _ fun _ => ⟨rfl, rfl⟩
  | lookup parent name caller =>
    refine hentry _ trivial ?_
    intro found
    cases found with
    | none => rfl
    | some e => rfl
  | makeOp | create => exact hentry _ trivial fun _ => rfl
  | readdirplus ino fh offset sink caller =>
    exact hreply _ (fun _ => ⟨fun _ => rfl, fun _ => rfl⟩)
      fun _ => ⟨fun h => absurd trivial h, fun h => absurd trivial h⟩

/-- The lookups that a request takes back. -/
def Request.forgets : Request → Multiset ℕ
  | .forget ino nlookup => Multiset.replicate nlookup ino
  | _ => 0

/-- A request other than `forget` that cannot unwind late adds the lookups of its answer. -/
lemma looked_serve {c : Config (service fs)} (hwf : c.state.table.WF) {req : Request}
    (hlate : ¬ LatePanic c req) (hforget : ∀ ino m, req ≠ .forget ino m) :
    (service fs).Ensures c.threads.length c.state (serve fs req) fun a s' =>
      Looked c.state s' (givenBy a) := by
  by_cases hreq : req.Grants
  · refine (adds_serve hwf hreq hlate).mono ?_
    intro a s' h
    cases a with
    | ok r => exact h
    | error e =>
      have hgranted : Granted c.state s' [] := h
      exact hgranted.toLooked
  · have hstart : Looked c.state c.state [] := ⟨hwf, fun _ => rfl⟩
    have hkeep := (uses_serve req).keeps (n := c.threads.length)
      (I := fun s => Looked c.state s []) ?_ hstart
    · refine (hkeep.returns (returns_serve req)).mono ?_
      rintro a s' ⟨hreturns, h⟩
      rwa [hreturns.1 hreq]
    · intro i ch r s s' hi he h
      refine h.exec (hi.elim RtInstr.Neutral.keepsLookups ?_) he
      cases req with
      | forget ino m => exact absurd rfl (hforget ino m)
      | lookup | makeOp | create | openNode | readdir | readdirplus => exact absurd trivial hreq
      | release =>
        intro hsection
        cases i with
        | grant | retainLookup | forget => exact hsection
        | _ => trivial
      | populate | statfs | getattr | setattr | nodeOp | fileOp | fsyncdir | treeOp =>
        exact fun hfalse => hfalse.elim

/-- The lookups after a request that cannot unwind late, if the kernel has what it takes back. -/
lemma lookups_serves {c c' : Config (service fs)} {req : Request} {a : Fallible Reply}
    (h : Serves c req a c') (hr : Run anyAction (start fs) c) (hlate : ¬ LatePanic c req)
    (hhas : ∀ i, req.forgets.count i ≤ c.state.table.count .lookups i) (i : ℕ) :
    c'.state.table.count .lookups i + req.forgets.count i =
      c.state.table.count .lookups i + (givenBy a).count i := by
  by_cases hforget : ∃ ino m, req = .forget ino m
  · obtain ⟨ino, m, rfl⟩ := hforget
    obtain ⟨rfl, htable, _⟩ := serves_forget h
    have hcount := hhas i
    change (Multiset.replicate m ino).count i ≤ _ at hcount
    change _ + (Multiset.replicate m ino).count i = _ + 0
    rw [Multiset.count_replicate] at hcount ⊢
    rw [htable, show c.state.table.forget ino m = c.state.table.decr .lookups m ino from rfl,
      count_decr]
    simp only [true_and, eq_comm (a := ino)] at hcount ⊢
    omega
  · have hother : ∀ ino m, req ≠ .forget ino m := fun ino m heq => hforget ⟨ino, m, heq⟩
    obtain ⟨T, hinv⟩ := (holds_any hr).inv
    obtain ⟨s', halone, htable⟩ := alone_of_serves hother h
    have hlooked := alone_iff_wp.mp (looked_serve hinv.wf hlate hother) a s' halone
    have hzero : req.forgets = 0 := by
      cases req with
      | forget ino m => exact absurd rfl (hother ino m)
      | _ => rfl
    rw [hzero, htable]
    exact hlooked.lookups i

end TypedFuse
