import TypedFuse.Conc.Discipline
import TypedFuse.Core.Safety

/-!
# The runtime does not deadlock

Two things make a request of the runtime wait: `close_and_take` waits until the leases on a handle
are gone, and a callback may wait for the state of its filesystem.  A request that holds a lease
never closes a handle before it has given the lease back, so the wait of `close_and_take` ends as
soon as the callbacks return, no matter how requests are interleaved.

A filesystem may bring locks of its own (`OwnDiscipline`).  What a request holds is then a pair, and
`Tidy` programs are those that give back whatever they take and may be run with any lease in hand.
-/

namespace TypedFuse

open Conc Conc.Service NodeTable TypedFuse.Runtime

/-! ## What a request holds -/

/-- What the callbacks of a filesystem hold of its own state. -/
structure OwnDiscipline (σ : FsSig) where
  Held : Type
  free : Held
  after : (i : FsInstr σ) → i.Resp → Held → Option Held
  inv : σ.State → Multiset Held → Prop

/-- A filesystem that is not known to lock anything. -/
def OwnDiscipline.trivial (σ : FsSig) : OwnDiscipline σ where
  Held := Unit
  free := ()
  after := fun _ _ h => some h
  inv := fun _ _ => True

/-- What a request holds: leases on handles, and whatever the filesystem lets it hold. -/
structure RtHeld (H : Type) where
  leases : Multiset (HandleKind × ℕ)
  own : H

variable {σ : FsSig}

open Classical in
/-- What a request holds after an instruction.  It must not wait for leases while it holds
anything. -/
noncomputable def RtHeld.after (O : OwnDiscipline σ) :
    (i : RtInstr σ) → i.Resp → RtHeld O.Held → Option (RtHeld O.Held)
  | .fs i, r, h => (O.after i r h.own).map fun own => { h with own := own }
  | .acquire k arc, (granted : Bool), h =>
    if granted then some { h with leases := (k, arc.addr) ::ₘ h.leases } else some h
  | .dropLease k arc, _, h =>
    if (k, arc.addr) ∈ h.leases then some { h with leases := h.leases.erase (k, arc.addr) }
    else none
  | .drain _ _, _, h => if h.leases = 0 ∧ h.own = O.free then some h else none
  | _, _, h => some h

open Classical in
lemma RtHeld.after_drain {O : OwnDiscipline σ} {k : HandleKind} {arc : HandleArc} {u : Unit}
    {h h' : RtHeld O.Held} :
    RtHeld.after O (.drain k arc) u h = some h' ↔
      (h.leases = 0 ∧ h.own = O.free) ∧ h = h' := by
  change (if h.leases = 0 ∧ h.own = O.free then some h else none) = some h' ↔ _
  split
  · next hfree => exact ⟨fun heq => ⟨hfree, Option.some.inj heq⟩,
      fun heq => congrArg some heq.2⟩
  · next hfree => exact ⟨fun heq => (nomatch heq), fun heq => absurd heq.1 hfree⟩

/-- What the holdings of all requests together mean. -/
def RtHeld.Inv (O : OwnDiscipline σ) (s : RtState σ) (M : Multiset (RtHeld O.Held)) : Prop :=
  s.hist.handleLeases = (M.map RtHeld.leases).sum ∧ O.inv s.fs (M.map RtHeld.own)

/-- The discipline of the runtime over that of its filesystem. -/
noncomputable def rtDiscipline (fs : NodeFs) (O : OwnDiscipline fs.toFsSig) :
    Discipline (service fs) where
  Held := RtHeld O.Held
  free := ⟨0, O.free⟩
  after := RtHeld.after O
  inv := fun s M => RtHeld.Inv O s M

/-! ## Tidy programs -/

section Tidy

variable {fs : NodeFs} {O : OwnDiscipline fs.toFsSig} {α β D τ : Type}

/-- A program that leaves a request with what it had before, whatever leases that were. -/
def Tidy (O : OwnDiscipline fs.toFsSig) (p : RtProg fs.toFsSig α) : Prop :=
  ∀ l, (rtDiscipline fs O).Keeps ⟨l, O.free⟩ p fun _ h => h = ⟨l, O.free⟩

/-- An instruction that takes and gives back nothing. -/
def RtInstr.LeaseFree : RtInstr σ → Prop
  | .fs _ => False
  | .acquire _ _ => False
  | .dropLease _ _ => False
  | .drain _ _ => False
  | _ => True

lemma RtInstr.LeaseFree.after {i : RtInstr σ} (hi : i.LeaseFree) (O : OwnDiscipline σ)
    (r : i.Resp) (h : RtHeld O.Held) : RtHeld.after O i r h = some h := by
  cases i with
  | fs | acquire | dropLease | drain => exact hi.elim
  | _ => rfl

namespace Tidy

lemma ret (a : α) : Tidy O (.ret a : RtProg fs.toFsSig α) :=
  fun _ => rfl

lemma bind {p : RtProg fs.toFsSig α} {f : α → RtProg fs.toFsSig β} (hp : Tidy O p)
    (hf : ∀ a, Tidy O (f a)) : Tidy O (p >>= f) := by
  intro l
  refine Discipline.Keeps.bind (hp l) ?_
  rintro a h rfl
  exact hf a l

/-- An instruction that takes and gives back nothing, then the rest. -/
lemma step {i : RtInstr fs.toFsSig} (hi : i.LeaseFree) {f : i.Resp → RtProg fs.toFsSig α}
    (hf : ∀ r, Tidy O (f r)) : Tidy O (sect i >>= f) := by
  intro l
  refine Discipline.Keeps.same (fun r => hi.after O r _) ?_
  intro r
  exact hf r l

lemma sect {i : RtInstr fs.toFsSig} (hi : i.LeaseFree) : Tidy O (Runtime.sect i) :=
  fun _ r => ⟨_, hi.after O r _, rfl⟩

lemma withNode {ino : ℕ} {body : NodeRef fs.Node → RtProg fs.toFsSig (Fallible α)}
    (hbody : ∀ ref, Tidy O (body ref)) : Tidy O (Runtime.withNode ino body) := by
  refine step (by trivial) ?_
  intro r
  cases r with
  | none => exact ret _
  | some ref => exact bind (hbody ref) fun a => step (by trivial) fun _ => ret a

/-- A lease is given back. -/
lemma withHandle {k : HandleKind} {ino fh : ℕ}
    {body : fs.Payload k → RtProg fs.toFsSig (Fallible α)}
    (hbody : ∀ payload, Tidy O (body payload)) : Tidy O (Runtime.withHandle k ino fh body) := by
  have hfail : ∀ record : HandleArc,
      Tidy O (Runtime.sect (.dropArc k record) >>= fun _ => .ret (fail .EBADF : Fallible α)) :=
    fun record => step (by trivial) fun _ => ret _
  refine step (by trivial) ?_
  intro r
  cases r with
  | none => exact ret _
  | some record =>
    intro l
    refine Discipline.Keeps.ite ?_ (hfail record l)
    intro granted
    cases granted with
    | false => exact ⟨_, rfl, hfail record l⟩
    | true =>
      -- the body runs with one more lease
      refine ⟨⟨(k, record.addr) ::ₘ l, O.free⟩, rfl, ?_⟩
      refine Discipline.Keeps.same (fun _ => rfl) fun _ => Discipline.Keeps.same (fun _ => rfl) ?_
      intro payload
      refine Discipline.Keeps.bind (hbody payload ((k, record.addr) ::ₘ l)) ?_
      rintro a h rfl
      refine Discipline.Keeps.step fun _ =>
        ⟨⟨l, O.free⟩, ?_, Discipline.Keeps.same (fun _ => rfl) ?_⟩
      · change (if (k, record.addr) ∈ (k, record.addr) ::ₘ l then _ else none) = _
        rw [if_pos (Multiset.mem_cons_self _ _), Multiset.erase_cons_head]
        rfl
      · exact fun _ => rfl

lemma withOptionalFile {ino : ℕ} {fh : Option ℕ}
    {body : Option (fs.Payload .file) → RtProg fs.toFsSig (Fallible α)}
    (hbody : ∀ payload, Tidy O (body payload)) :
    Tidy O (Runtime.withOptionalFile ino fh body) := by
  cases fh with
  | none => exact hbody none
  | some fh => exact withHandle fun payload => hbody (some payload)

lemma onOk {outcome : Fallible α} {next : α → RtProg fs.toFsSig (Fallible β)}
    (hok : ∀ a, Tidy O (next a)) : Tidy O (Runtime.onOk outcome next) := by
  cases outcome with
  | error e => exact ret _
  | ok a => exact hok a

lemma forgetAll (ids : List NodeId) : Tidy O (Runtime.forgetAll ids : RtProg fs.toFsSig Unit) := by
  induction ids with
  | nil => exact ret ()
  | cons id ids ih => exact step (by trivial) fun _ => ih

end Tidy

/-- The accounting sink takes nothing. -/
lemma keeps_accounting (sink : Sink PlusEntry) (acc : Accounting) (name : Name) (id : NodeId)
    (attr : NodeAttr) (nextOffset : ℕ) (h : RtHeld O.Held) :
    (rtDiscipline fs O).Keeps h
      (Accounting.add sink acc name id attr nextOffset : RtProg fs.toFsSig _)
      fun _ h' => h' = h := by
  refine Discipline.Keeps.same (fun _ => rfl) ?_
  intro r
  cases r with
  | none => exact rfl
  | some generation =>
    refine Discipline.Keeps.ite (Discipline.Keeps.ite ?_ rfl) rfl
    refine Discipline.Keeps.same (fun _ => rfl) ?_
    intro r
    cases r with
    | none => exact rfl
    | some _ => exact rfl

/-- What the instructions of a directory callback do to what a request holds: pushing an entry does
nothing, and the sink may take it or not. -/
def holdSpec (O : OwnDiscipline fs.toFsSig) (i : DirInstr fs.toFsSig D) (h : RtHeld O.Held)
    (K : i.Resp → RtHeld O.Held → Prop) : Prop :=
  match i, K with
  | .fs i, K => (rtDiscipline fs O).spec (.fs i) h K
  | .add _ _ _ _, K => ∀ taken, K taken h

lemma mono_holdSpec (O : OwnDiscipline fs.toFsSig) :
    Prog.MonoSpec (holdSpec (D := D) O) := by
  intro i h K K' hK hspec
  cases i with
  | fs i => exact (rtDiscipline fs O).mono_spec (.fs i) h K K' hK hspec
  | add name id data nextOffset => exact fun taken => hK taken h (hspec taken)

/-- A callback inside a directory callback does what it does alone. -/
lemma holds_inDir {p : FsProg fs.toFsSig α} {Q : α → RtHeld O.Held → Prop}
    {h : RtHeld O.Held} :
    (p.inDir : DirProg fs.toFsSig D α).wp (holdSpec O) Q h ↔
      (rtDiscipline fs O).Keeps h (call p) Q := by
  induction p generalizing h with
  | ret a => exact Iff.rfl
  | act i k ih =>
    constructor
    · exact (rtDiscipline fs O).mono_spec (.fs i) h _ _ fun r h' hr => (ih r).mp hr
    · exact (rtDiscipline fs O).mono_spec (.fs i) h _ _ fun r h' hr => (ih r).mpr hr

/-- A directory callback that leaves a request with what it had before. -/
def TidyDir (O : OwnDiscipline fs.toFsSig) (p : DirProg fs.toFsSig D α) : Prop :=
  ∀ l, p.wp (holdSpec O) (fun _ h => h = ⟨l, O.free⟩) ⟨l, O.free⟩

/-- A directory callback over a sink that takes nothing. -/
lemma TidyDir.handle {p : DirProg fs.toFsSig D α} (hp : TidyDir O p)
    {sink : (i : DirInstr fs.toFsSig D) → τ → RtProg fs.toFsSig (i.Resp × τ)}
    (hfs : ∀ i acc, sink (.fs i) acc = Runtime.sect (.fs i) >>= fun r => .ret (r, acc))
    (hadd : ∀ name id data nextOffset acc (h : RtHeld O.Held),
      (rtDiscipline fs O).Keeps h (sink (.add name id data nextOffset) acc) fun _ h' => h' = h)
    (acc : τ) : Tidy O (p.handle sink acc) := by
  intro l
  have hstep : ∀ (i : DirInstr fs.toFsSig D) (acc : τ) (h : RtHeld O.Held)
      (K : i.Resp → RtHeld O.Held → Prop), True → holdSpec O i h K →
      (sink i acc).wp (rtDiscipline fs O).spec (fun rs h' => True ∧ K rs.1 h') h := by
    intro i acc h K _ hK
    cases i with
    | fs i =>
      rw [hfs]
      exact (rtDiscipline fs O).mono_spec (.fs i) h _ _ (fun r h' hr => ⟨trivial, hr⟩) hK
    | add name id data nextOffset =>
      refine Discipline.Keeps.mono (hadd name id data nextOffset acc h) ?_
      rintro ⟨taken, acc'⟩ h' rfl
      exact ⟨trivial, hK taken⟩
  refine Discipline.Keeps.mono (D := rtDiscipline fs O) (Prog.wp_handle_inv
    (rtDiscipline fs O).mono_spec (V := fun _ => True) hstep (hp l) trivial) ?_
  rintro rs h ⟨_, hh⟩
  exact hh

/-- A filesystem whose callbacks give back what they take of its own state, and whose steps respect
what they hold. -/
structure OwnDiscipline.Respected (O : OwnDiscipline fs.toFsSig) : Prop where
  exec : ∀ {n : ℕ} {i : FsInstr fs.toFsSig} {ch : Option fs.Choice} {s s' : RtState fs.toFsSig}
    {r : i.Resp} {h h' : O.Held} {M : Multiset O.Held}, s.execFs n i ch = some (r, s') →
    O.after i r h = some h' → O.inv s.fs (h ::ₘ M) → O.inv s'.fs (h' ::ₘ M)
  issue : ∀ {s : fs.State} {M : Multiset O.Held}, O.inv s M → O.inv s (O.free ::ₘ M)
  init : O.inv fs.init 0
  populate : Tidy O (call fs.populate)
  getattr : ∀ node h caller, Tidy O (call (fs.getattr node h caller))
  setattr : ∀ node h set caller, Tidy O (call (fs.setattr node h set caller))
  nodeOp : ∀ op node caller, Tidy O (call (fs.nodeOp op node caller))
  fileOp : ∀ op node h caller, Tidy O (call (fs.fileOp op node h caller))
  fsyncdir : ∀ node h datasync caller, Tidy O (call (fs.fsyncdir node h datasync caller))
  statfs : ∀ caller, Tidy O (call (fs.statfs caller))
  openNode : ∀ k node flags caller, Tidy O (call (fs.openNode k node flags caller))
  release : ∀ k node h caller, Tidy O (call (fs.release k node h caller))
  readdir : ∀ node id parent h offset caller,
    TidyDir O (fs.readdir node id parent h offset caller)
  readdirplus : ∀ node id parent h offset caller,
    TidyDir O (fs.readdirplus node id parent h offset caller)
  lookup : ∀ parent name caller, Tidy O (call (fs.lookup parent name caller))
  makeOp : ∀ op caller, Tidy O (call (fs.makeOp op caller))
  treeOp : ∀ op caller, Tidy O (call (fs.treeOp op caller))
  create : ∀ parent name mode umask flags caller,
    Tidy O (call (fs.create parent name mode umask flags caller))

namespace OwnDiscipline.Respected

variable (hO : O.Respected)

include hO

lemma entryFor (id : NodeId) (caller : Caller) : Tidy O (Runtime.entryFor fs id caller) := by
  refine Tidy.step (by trivial) fun denoted => Tidy.step (by trivial) ?_
  intro r
  cases r with
  | none => exact Tidy.ret _
  | some ref =>
    refine Tidy.bind (hO.getattr _ none caller) ?_
    intro result
    cases result with
    | error e => exact Tidy.step (by trivial) fun _ => Tidy.ret _
    | ok attr =>
      refine Tidy.step (by trivial) ?_
      intro r
      cases r with
      | none => exact Tidy.step (by trivial) fun _ => Tidy.ret _
      | some generation => exact Tidy.step (by trivial) fun _ => Tidy.ret _

lemma openNode' (k : HandleKind) (ino : ℕ) (flags : ℤ) (caller : Caller) :
    Tidy O (Runtime.openNode fs k ino flags caller) := by
  refine Tidy.withNode fun ref => Tidy.bind (hO.openNode k _ flags caller) fun result =>
    Tidy.onOk ?_
  intro opened
  refine Tidy.step (by trivial) ?_
  intro live
  cases live with
  | true => exact Tidy.step (by trivial) fun _ => Tidy.ret _
  | false => exact Tidy.step (by trivial) fun _ => Tidy.ret _

lemma create' (parent : ℕ) (name : Name) (mode umask : ℕ) (flags : ℤ) (caller : Caller) :
    Tidy O (Runtime.create fs parent name mode umask flags caller) := by
  refine Tidy.bind (hO.create parent name mode umask flags caller) fun result => Tidy.onOk ?_
  rintro ⟨id, opened⟩
  refine Tidy.bind (hO.entryFor id caller) ?_
  intro entry
  cases entry with
  | error e => exact Tidy.step (by trivial) fun _ => Tidy.ret _
  | ok entry =>
    refine Tidy.step (by trivial) ?_
    intro live
    cases live with
    | true => exact Tidy.step (by trivial) fun _ => Tidy.ret _
    | false => exact Tidy.step (by trivial) fun _ => Tidy.step (by trivial) fun _ => Tidy.ret _

lemma readdir' (ino fh offset : ℕ) (sink : Sink DirEntry) (caller : Caller) :
    Tidy O (Runtime.readdir fs ino fh offset sink caller) := by
  refine Tidy.withNode fun ref => Tidy.step (by trivial) ?_
  intro parent
  cases parent with
  | none => exact Tidy.ret _
  | some parent =>
    refine Tidy.withHandle fun payload =>
      Tidy.bind ((hO.readdir _ ino parent payload offset caller).handle (fun _ _ => rfl) ?_ []) ?_
    · exact fun _ _ _ _ _ _ => rfl
    · exact fun _ => Tidy.ret _

lemma readdirplus' (ino fh offset : ℕ) (sink : Sink PlusEntry) (caller : Caller) :
    Tidy O (Runtime.readdirplus fs ino fh offset sink caller) := by
  refine Tidy.withNode fun ref => Tidy.step (by trivial) ?_
  intro parent
  cases parent with
  | none => exact Tidy.ret _
  | some parent =>
    refine Tidy.withHandle fun payload =>
      Tidy.bind ((hO.readdirplus _ ino parent payload offset caller).handle (fun _ _ => rfl) ?_
        ({} : Accounting)) ?_
    · exact fun name id attr next acc h => keeps_accounting sink acc name id attr next h
    · rintro ⟨result, acc⟩
      cases result with
      | ok _ => exact Tidy.ret _
      | error e =>
        cases e with
        | errno e => exact Tidy.bind (Tidy.forgetAll _) fun _ => Tidy.ret _
        | panic => exact Tidy.step (by trivial) fun _ => Tidy.ret _

/-- `release` holds nothing of its own while it waits for the leases of others. -/
lemma release' (k : HandleKind) (ino fh : ℕ) (caller : Caller) :
    (rtDiscipline fs O).Keeps ⟨0, O.free⟩ (Runtime.release fs k ino fh caller)
      fun _ h => h = ⟨0, O.free⟩ := by
  have hdrain : ∀ record : HandleArc, (rtDiscipline fs O).Keeps ⟨0, O.free⟩
      (closeAndTake k record) fun _ h => h = ⟨0, O.free⟩ := by
    intro record
    refine Discipline.Keeps.same (fun _ => rfl) ?_
    intro drained
    cases drained with
    | true => exact Tidy.sect (O := O) (i := .take k record) (by trivial) 0
    | false =>
      have hkeep : ∀ u, RtHeld.after O (.drain k record) u ⟨0, O.free⟩ =
          some ⟨0, O.free⟩ :=
        fun u => RtHeld.after_drain.mpr ⟨⟨rfl, rfl⟩, rfl⟩
      refine Discipline.Keeps.same hkeep fun _ => ?_
      exact Tidy.sect (O := O) (i := .take k record) (by trivial) 0
  refine Discipline.Keeps.same (fun _ => rfl) ?_
  intro r
  cases r with
  | none => exact rfl
  | some record =>
    refine Discipline.Keeps.bind (D := rtDiscipline fs O) (Q := fun _ h => h = ⟨0, O.free⟩) ?_
      ?_
    · refine Discipline.Keeps.same (fun _ => rfl) ?_
      intro r
      cases r with
      | none => exact rfl
      | some ref =>
        refine Discipline.Keeps.bind (D := rtDiscipline fs O)
          (Q := fun _ h => h = ⟨0, O.free⟩) ?_ ?_
        · refine Discipline.Keeps.same (fun _ => rfl) fun _ =>
            Discipline.Keeps.bind (hdrain record) ?_
          rintro payload h rfl
          exact hO.release k _ payload caller 0
        · rintro a h rfl
          exact Discipline.Keeps.same (fun _ => rfl) fun _ => rfl
    · rintro a h rfl
      exact Discipline.Keeps.same (fun _ => rfl) fun _ => rfl

/-- Every request gives back what it takes. -/
theorem serve (req : Request) :
    (rtDiscipline fs O).Keeps ⟨0, O.free⟩ (Runtime.serve fs req)
      fun _ h => h = ⟨0, O.free⟩ := by
  have hmap : ∀ {α β : Type} {p : RtProg fs.toFsSig α} (f : α → β), Tidy O p →
      (rtDiscipline fs O).Keeps ⟨0, O.free⟩ (p >>= fun a => .ret (f a))
        fun _ h => h = ⟨0, O.free⟩ :=
    fun f hp => Tidy.bind hp (fun a => Tidy.ret (f a)) 0
  cases req with
  | populate => exact hmap _ hO.populate
  | forget ino nlookup => exact hmap _ (Tidy.sect (by trivial))
  | statfs caller => exact hmap _ (hO.statfs caller)
  | getattr ino fh caller =>
    exact hmap _ (Tidy.withNode fun _ => Tidy.withOptionalFile fun _ => hO.getattr _ _ _)
  | setattr ino fh set caller =>
    exact hmap _ (Tidy.withNode fun _ => Tidy.withOptionalFile fun _ => hO.setattr _ _ _ _)
  | nodeOp op ino caller => exact hmap _ (Tidy.withNode fun _ => hO.nodeOp _ _ _)
  | fileOp op ino fh caller =>
    exact hmap _ (Tidy.withNode fun _ => Tidy.withHandle fun _ => hO.fileOp _ _ _ _)
  | fsyncdir ino fh datasync caller =>
    exact hmap _ (Tidy.withNode fun _ => Tidy.withHandle fun _ => hO.fsyncdir _ _ _ _)
  | openNode k ino flags caller => exact hmap _ (hO.openNode' k ino flags caller)
  | release k ino fh caller =>
    refine Discipline.Keeps.bind (hO.release' k ino fh caller) ?_
    rintro a h rfl
    exact rfl
  | readdir ino fh offset sink caller => exact hmap _ (hO.readdir' ino fh offset sink caller)
  | readdirplus ino fh offset sink caller =>
    exact hmap _ (hO.readdirplus' ino fh offset sink caller)
  | lookup parent name caller =>
    refine hmap _ (Tidy.bind (hO.lookup parent name caller) fun result => Tidy.onOk ?_)
    intro found
    cases found with
    | none => exact Tidy.ret _
    | some id => exact Tidy.bind (hO.entryFor id caller) fun _ => Tidy.ret _
  | makeOp op caller =>
    exact hmap _ (Tidy.bind (hO.makeOp op caller) fun _ =>
      Tidy.onOk fun id => hO.entryFor id caller)
  | treeOp op caller => exact hmap _ (hO.treeOp op caller)
  | create parent name mode umask flags caller =>
    exact hmap _ (hO.create' parent name mode umask flags caller)

end OwnDiscipline.Respected

end Tidy

/-! ## The discipline is kept -/

/-- Only these instructions change the leases on handles. -/
lemma handleLeases_exec {s s' : RtState σ} {n : ℕ} {i : RtInstr σ} {ch : Option σ.Choice}
    {r : i.Resp} (hi : i.LeaseFree) (he : s.exec n i ch = some (r, s')) :
    s'.hist.handleLeases = s.hist.handleLeases := by
  cases i with
  | fs | acquire | dropLease | drain => exact hi.elim
  | grant id | retainLookup id =>
    obtain ⟨⟨o, t'⟩, _, heq⟩ := Option.map_eq_some_iff.mp he
    obtain ⟨_, rfl⟩ := Prod.mk.inj heq
    dsimp only
    split <;> rfl
  | dropNode | denote | plusEntry | forget | leak | removeOpen | parentOf | discard |
      removeHandle =>
    obtain ⟨_, rfl⟩ := Prod.mk.inj (Option.some.inj he)
    rfl
  | node | lease | addOpen | addHandle | findHandle | deref | dropArc | close | take =>
    obtain ⟨_, _, heq⟩ := Option.map_eq_some_iff.mp he
    obtain ⟨_, rfl⟩ := Prod.mk.inj heq
    rfl

lemma RtInstr.LeaseFree.ne_fs {i : RtInstr σ} (hi : i.LeaseFree) (j : FsInstr σ) :
    i ≠ .fs j := by
  rintro rfl
  exact hi

section Sound

variable {fs : NodeFs} {O : OwnDiscipline fs.toFsSig}

/-- Changing what one request holds of the leases. -/
lemma RtHeld.Inv.swap {s s' : RtState fs.toFsSig} {h h' : RtHeld O.Held}
    {M : Multiset (RtHeld O.Held)} (hinv : RtHeld.Inv O s (h ::ₘ M))
    (hown : h'.own = h.own) (hfs : s'.fs = s.fs)
    (hleases : ∀ L, s.hist.handleLeases = h.leases + L → s'.hist.handleLeases = h'.leases + L) :
    RtHeld.Inv O s' (h' ::ₘ M) := by
  obtain ⟨hl, ho⟩ := hinv
  rw [Multiset.map_cons, Multiset.sum_cons] at hl
  rw [Multiset.map_cons] at ho
  constructor
  · rw [Multiset.map_cons, Multiset.sum_cons]
    exact hleases _ hl
  · rw [Multiset.map_cons, hown, hfs]
    exact ho

/-- Every instruction keeps the discipline of the runtime. -/
lemma RtHeld.Inv.exec (hO : O.Respected) {n : ℕ} {i : RtInstr fs.toFsSig}
    {ch : Option fs.Choice} {s s' : RtState fs.toFsSig} {r : i.Resp} {h h' : RtHeld O.Held}
    {M : Multiset (RtHeld O.Held)} (he : s.exec n i ch = some (r, s'))
    (hafter : RtHeld.after O i r h = some h') (hinv : RtHeld.Inv O s (h ::ₘ M)) :
    RtHeld.Inv O s' (h' ::ₘ M) := by
  by_cases hi : i.LeaseFree
  · rw [hi.after] at hafter
    obtain rfl := Option.some.inj hafter
    refine hinv.swap rfl (calm_exec hi.ne_fs he).2 ?_
    intro L hL
    rw [handleLeases_exec hi he, hL]
  cases i with
  | fs i =>
    obtain ⟨own, hown, rfl⟩ := Option.map_eq_some_iff.mp hafter
    obtain ⟨hl, ho⟩ := hinv
    rw [Multiset.map_cons] at hl ho
    constructor
    · rw [Multiset.map_cons, (handles_execFs he).2]
      exact hl
    · rw [Multiset.map_cons]
      exact hO.exec he hown ho
  | acquire k arc =>
    have hfs := (calm_exec (by simp) he).2
    obtain ⟨⟨granted, hs⟩, _, heq⟩ := Option.map_eq_some_iff.mp he
    obtain ⟨rfl, rfl⟩ := Prod.mk.inj heq
    cases granted with
    | true =>
      obtain rfl := Option.some.inj hafter
      refine hinv.swap rfl hfs ?_
      intro L hL
      change (k, arc.addr) ::ₘ s.hist.handleLeases = _
      rw [hL, Multiset.cons_add]
    | false =>
      obtain rfl := Option.some.inj hafter
      exact hinv.swap rfl hfs fun L hL => hL
  | dropLease k arc =>
    have hfs := (calm_exec (by simp) he).2
    obtain ⟨hs, _, heq⟩ := Option.map_eq_some_iff.mp he
    obtain ⟨_, rfl⟩ := Prod.mk.inj heq
    change (if (k, arc.addr) ∈ h.leases then _ else none) = some h' at hafter
    split at hafter
    · next hmem =>
      obtain rfl := Option.some.inj hafter
      refine hinv.swap rfl hfs ?_
      intro L hL
      change s.hist.handleLeases.erase (k, arc.addr) = _
      rw [hL, Multiset.erase_add_left_pos _ hmem]
    · cases hafter
  | drain k arc =>
    have hfs := (calm_exec (by simp) he).2
    obtain ⟨hs, _, heq⟩ := Option.map_eq_some_iff.mp he
    obtain ⟨_, rfl⟩ := Prod.mk.inj heq
    obtain ⟨_, rfl⟩ := RtHeld.after_drain.mp hafter
    exact hinv.swap rfl hfs fun L hL => hL
  | _ => exact absurd trivial hi

/-- A request that holds nothing. -/
lemma RtHeld.Inv.fresh (hO : O.Respected) {s : RtState fs.toFsSig} {M : Multiset (RtHeld O.Held)}
    (hinv : RtHeld.Inv O s M) : RtHeld.Inv O s (⟨0, O.free⟩ ::ₘ M) := by
  obtain ⟨hl, ho⟩ := hinv
  constructor
  · rw [Multiset.map_cons, Multiset.sum_cons, hl]
    exact (zero_add _).symm
  · rw [Multiset.map_cons]
    exact hO.issue ho

lemma RtHeld.Inv.issue (hO : O.Respected) {n : ℕ} {req : Request} {s : RtState fs.toFsSig}
    {M : Multiset (RtHeld O.Held)} (hinv : RtHeld.Inv O s M) :
    RtHeld.Inv O (Runtime.issue n req s) (⟨0, O.free⟩ ::ₘ M) := by
  have hsame : RtHeld.Inv O (Runtime.issue n req s) M := by
    cases req with
    | _ => exact hinv
  exact hsame.fresh hO

/-- The discipline of the runtime is sound over any filesystem that respects its own. -/
theorem rtDiscipline_sound (hO : O.Respected) : (rtDiscipline fs O).Sound where
  exec := fun he hafter hinv => RtHeld.Inv.exec hO he hafter hinv
  issue := by
    intro n req s s' M hissue hinv
    obtain rfl := Option.some.inj hissue
    exact RtHeld.Inv.issue hO hinv
  answer := fun hinv => hinv
  prog := fun req => hO.serve req

/-- The discipline is kept along every run. -/
theorem rtDiscipline_kept (hO : O.Respected)
    {allow : Config (service fs) → Action (service fs) → Prop} {c : Config (service fs)}
    (hr : Run allow (start fs) c) : (rtDiscipline fs O).Kept c :=
  (rtDiscipline_sound hO).kept ⟨[], .nil, rfl, hO.init⟩ hr

end Sound

/-! ## Why an instruction waits -/

/-- A counter of a node is at its limit. -/
def NodeTable.Full {N : Type} (t : NodeTable N) (c : Counter) (id : NodeId) : Prop :=
  2 ^ c.width ≤ t.count c id + 1

/-- An instruction that panics, since a counter of the runtime is at its limit. -/
def Exhausted (s : RtState σ) : RtInstr σ → Prop
  | .fs (.get id) => s.table.Full .leases id
  | .fs (.addLink id) => s.table.Full .links id
  | .fs (.insert _ _) => s.table.free = [] ∧ 2 ^ 64 ≤ s.table.nextIno + 1
  | .node id => s.table.Full .leases id
  | .lease id => s.table.Full .leases id
  | .grant id => s.table.Full .lookups id
  | .retainLookup id => s.table.Full .lookups id
  | .addOpen ino => s.table.Full .opens ino
  | .addHandle _ _ _ => 2 ^ 64 ≤ s.handles.nextFh + 1
  | .acquire k arc => 2 ^ 32 ≤ s.hist.handleLeases.count (k, arc.addr) + 1
  | _ => False

/-- An instruction of a callback that the filesystem itself makes wait: an own step that is
undefined, whatever it leaves open, or the drop of a reference that it does not own. -/
def FsWaits (s : RtState σ) (n : ℕ) : RtInstr σ → Prop
  | .fs (.own i) => ∀ ch, σ.exec n i ch s.fs = none
  | .fs (.dropRef r) => r.key ∉ s.hist.fsRefs
  | _ => False

lemma full_of_incr {N : Type} {t : NodeTable N} {c : Counter} {id : NodeId}
    (h : t.incr c id = none) : t.Full c id := by
  unfold NodeTable.incr at h
  split at h
  · cases h
  · next s hs =>
    split at h
    · cases h
    · next hlt =>
      rw [NodeTable.Full, count_of_slot hs]
      exact not_lt.mp hlt

/-- A callback waits for the filesystem or at a counter that is at its limit. -/
lemma execFs_waits {s : RtState σ} {n : ℕ} {i : FsInstr σ}
    (h : ∀ ch, s.execFs n i ch = none) :
    Exhausted s (.fs i) ∨ FsWaits s n (.fs i) := by
  cases i with
  | get id =>
    have hnone := Option.map_eq_none_iff.mp (h none)
    exact Or.inl (full_of_incr (Option.map_eq_none_iff.mp hnone))
  | addLink id =>
    have hnone := Option.map_eq_none_iff.mp (h none)
    exact Or.inl (full_of_incr (Option.map_eq_none_iff.mp hnone))
  | insert payload parent =>
    have hnone := Option.map_eq_none_iff.mp (Option.map_eq_none_iff.mp (h none))
    unfold NodeTable.alloc at hnone
    split at hnone
    · cases hnone
    · next hfree =>
      split at hnone
      · cases hnone
      · next hlt => exact Or.inl ⟨hfree, not_lt.mp hlt⟩
  | contains | reparent | removeLink => exact absurd (h none) (Option.some_ne_none _)
  | dropRef r =>
    refine Or.inr ?_
    have hnone := h none
    change (if r.key ∈ s.hist.fsRefs then some _ else none) = none at hnone
    split at hnone
    · cases hnone
    · next hmem => exact hmem
  | own i => exact Or.inr fun ch => Option.map_eq_none_iff.mp (h (some ch))

section Waiting

variable {fs : NodeFs} {E : Env} {s : RtState fs.toFsSig} {v : View} {k : HandleKind} {a : ℕ}

/-- The record of a lease has its payload. -/
lemma Inv.deref_isSome (hi : Inv E s (v.add (.handle k a))) : s.handles.deref k a ≠ none := by
  obtain ⟨cell, hcell, hpay, _⟩ := hi.handles.deref
  rw [Handles.deref, hcell]
  exact Option.isSome_iff_ne_none.mp hpay

/-- Acquiring fails only if there are too many leases. -/
lemma Inv.acquire_waits (hi : Inv E s (v.add (.arc k a))) (h : s.handles.acquire k a = none) :
    2 ^ 32 ≤ s.hist.handleLeases.count (k, a) + 1 := by
  obtain ⟨cell, hcell, _⟩ := hi.handles.cell_of_arc (Multiset.mem_cons_self _ _)
  have hactive := (hi.handles.cells hcell).1
  unfold Handles.acquire at h
  rw [hcell] at h
  dsimp only at h
  split at h
  · cases h
  · split at h
    · cases h
    · next hlt =>
      rw [← hactive]
      exact not_lt.mp hlt

/-- Closing waits for leases. -/
lemma Inv.drain_waits (hi : Inv E s (v.add (.closer k a .closing)))
    (h : s.handles.drain k a = none) :
    (k, a) ∈ s.hist.handleLeases := by
  obtain ⟨cell, hcell, _⟩ := hi.handles.cell_of_closer (Multiset.mem_cons_self _ _)
  have hactive := (hi.handles.cells hcell).1
  unfold Handles.drain at h
  rw [hcell] at h
  dsimp only at h
  split at h
  · cases h
  · exact Multiset.count_pos.mp (by omega)

/-- A registered handle is found. -/
lemma Inv.find_isSome (hi : Inv E s v) {fh : ℕ} : s.handles.find k fh ≠ none := by
  unfold Handles.find
  split
  · exact Option.some_ne_none _
  · next arc harc =>
    have haddr := hi.handles.table k fh arc harc
    obtain ⟨cell, hcell, _⟩ := hi.handles.cell_of_table (a := fh) harc
    rw [haddr, hcell]
    exact Option.some_ne_none _

end Waiting

section Progress

variable {fs : NodeFs} {allow : Config (service fs) → Action (service fs) → Prop}
  {c : Config (service fs)}

/-- A request waits at a counter that is at its limit, for the filesystem, or to close a handle with
leases. -/
theorem waits_cases (hr : Run allow (start fs) c) {n id : ℕ} {req : Request}
    {i : RtInstr fs.toFsSig} {p : i.Resp → RtProg fs.toFsSig (Fallible Reply)}
    (ht : c.threads[n]? = some ⟨id, req, .running (.act i p)⟩)
    (hnone : ∀ ch, c.state.exec id i ch = none) :
    Exhausted c.state i ∨ FsWaits c.state id i ∨
      ∃ k arc, i = .drain k arc ∧ (k, arc.addr) ∈ c.state.hist.handleLeases := by
  obtain ⟨_, C, F, hC, hi⟩ := (holds_any hr).contract ⟨id, p, ht⟩
  have hinv : Inv Env.any c.state (view (C.take + F)) := hi
  have h := hnone none
  cases hC with
  | fs i => exact (execFs_waits hnone).imp_right Or.inl
  | node | nodeOpen | lease =>
    have hget := Option.map_eq_none_iff.mp (Option.map_eq_none_iff.mp h)
    exact Or.inl (full_of_incr hget)
  | grant | retainLookup =>
    have hadd := Option.map_eq_none_iff.mp (Option.map_eq_none_iff.mp h)
    exact Or.inl (full_of_incr hadd)
  | addOpen | addOpenCreated =>
    have hadd := Option.map_eq_none_iff.mp (Option.map_eq_none_iff.mp h)
    exact Or.inl (full_of_incr hadd)
  | dropNode | denote | plusEntry | forget | leak | removeOpen | parentOf | discard |
      removeHandle => exact absurd h (Option.some_ne_none _)
  | addHandle k node payload =>
    have hadd := Option.map_eq_none_iff.mp h
    unfold Handles.add at hadd
    split at hadd
    · cases hadd
    · next hlt => exact Or.inl (not_lt.mp hlt)
  | findHandle k fh => exact absurd (Option.map_eq_none_iff.mp h) hinv.find_isSome
  | acquire k arc =>
    rw [view_single] at hinv
    exact Or.inl (hinv.acquire_waits (Option.map_eq_none_iff.mp h))
  | deref k arc =>
    rw [view_single] at hinv
    exact absurd (Option.map_eq_none_iff.mp h) hinv.deref_isSome
  | dropLease k arc =>
    rw [view_single] at hinv
    obtain ⟨cell, hcell, _⟩ := hinv.handles.cell_of_lease (Multiset.mem_cons_self _ _)
    have hd := Option.map_eq_none_iff.mp (Option.map_eq_none_iff.mp h)
    cases hcell.symm.trans hd
  | dropArc k arc =>
    rw [view_single] at hinv
    obtain ⟨cell, hcell, _⟩ := hinv.handles.cell_of_arc (Multiset.mem_cons_self _ _)
    have hd := Option.map_eq_none_iff.mp (Option.map_eq_none_iff.mp h)
    cases hcell.symm.trans hd
  | close k arc =>
    rw [view_single] at hinv
    obtain ⟨cell, hcell, _⟩ := hinv.handles.cell_of_closer (Multiset.mem_cons_self _ _)
    have hd := Option.map_eq_none_iff.mp (Option.map_eq_none_iff.mp h)
    cases hcell.symm.trans hd
  | drain k arc =>
    rw [view_single] at hinv
    exact Or.inr (Or.inr ⟨k, arc, rfl, hinv.drain_waits (Option.map_eq_none_iff.mp h)⟩)
  | take k arc =>
    rw [view_single] at hinv
    obtain ⟨cell, hcell, _, _, hpay, _⟩ := hinv.handles.drained
    have htake := Option.map_eq_none_iff.mp h
    unfold Handles.take at htake
    rw [hcell] at htake
    dsimp only at htake
    split at htake
    · cases htake
    · next hnopay => rw [hnopay] at hpay; cases hpay

end Progress

/-! ## No deadlock -/

/-- The levels of the runtime: closing a handle is below the callbacks, everything that does not
wait for a request is above them. -/
def RtInstr.level (top : ℕ) (level : FsInstr σ → ℕ) : RtInstr σ → ℕ
  | .drain _ _ => 0
  | .fs i => level i + 1
  | _ => top + 2

/-- What a request makes others wait for. -/
def RtHeld.Blocks {H : Type} (blocks : H → FsInstr σ → Prop) (h : RtHeld H) :
    RtInstr σ → Prop
  | .drain k arc => (k, arc.addr) ∈ h.leases
  | .fs i => blocks h.own i
  | _ => False

section Ordered

variable {fs : NodeFs} {O : OwnDiscipline fs.toFsSig} {top : ℕ}
    {level : FsInstr fs.toFsSig → ℕ}
  {blocks : O.Held → FsInstr fs.toFsSig → Prop}

/-- The instructions of a filesystem have levels, in the sense of `Discipline.Ordered`. -/
structure OwnDiscipline.Ordered (O : OwnDiscipline fs.toFsSig) (top : ℕ)
    (level : FsInstr fs.toFsSig → ℕ) (blocks : O.Held → FsInstr fs.toFsSig → Prop) :
    Prop where
  level_le : ∀ i, level i ≤ top
  free : ∀ i, ¬ blocks O.free i
  ascends : ∀ h i j, blocks h i → (∀ r, ∃ h', O.after j r h = some h') → level i < level j

/-- Leases on handles come before the locks of the filesystem. -/
lemma OwnDiscipline.Ordered.runtime (hO : O.Ordered top level blocks) :
    (rtDiscipline fs O).Ordered (top + 2) (RtInstr.level top level) (RtHeld.Blocks blocks) where
  level_le := by
    intro i
    cases i with
    | fs i => exact Nat.le_succ_of_le (Nat.succ_le_succ (hO.level_le i))
    | drain k arc => exact Nat.zero_le _
    | _ => exact le_refl (top + 2)
  free := by
    intro i hblocks
    cases i with
    | drain k arc => exact Multiset.notMem_zero _ hblocks
    | fs i => exact hO.free i hblocks
    | _ => exact hblocks
  ascends := by
    intro h i j K hblocks hspec
    have hlow : i.level top level < top + 2 := by
      cases i with
      | fs i => exact Nat.succ_lt_succ (Nat.lt_succ_of_le (hO.level_le i))
      | drain k arc => exact Nat.succ_pos _
      | _ => exact hblocks.elim
    cases j with
    | fs j =>
      cases i with
      | drain k arc => exact Nat.succ_pos _
      | fs i =>
        refine Nat.succ_lt_succ (hO.ascends h.own i j hblocks ?_)
        intro r
        obtain ⟨h', hafter, _⟩ := hspec r
        obtain ⟨own, hown, _⟩ := Option.map_eq_some_iff.mp hafter
        exact ⟨own, hown⟩
      | _ => exact hblocks.elim
    | drain k arc =>
      -- nothing is held while a handle is closed
      obtain ⟨h', hafter, _⟩ := hspec ()
      have hdrain : RtHeld.after O (.drain k arc) () h = some h' := hafter
      obtain ⟨⟨hleases, hown⟩, _⟩ := RtHeld.after_drain.mp hdrain
      cases i with
      | drain k' arc' =>
        change (k', arc'.addr) ∈ h.leases at hblocks
        rw [hleases] at hblocks
        exact absurd hblocks (Multiset.notMem_zero _)
      | fs i =>
        change blocks h.own i at hblocks
        rw [hown] at hblocks
        exact absurd hblocks (hO.free i)
      | _ => exact hblocks.elim
    | _ => exact hlow

variable {allow : Config (service fs) → Action (service fs) → Prop} {c : Config (service fs)}

/-- A request waits in an instruction for no other request: a counter is at its limit, or the
filesystem makes it wait for a reason of its own. -/
def HeldUp (external : RtState fs.toFsSig → ℕ → FsInstr fs.toFsSig → Prop)
    (c : Config (service fs)) (m : ℕ) : Prop :=
  ∃ req i, c.At m req i ∧ (Exhausted c.state i ∨ ∃ j, i = .fs j ∧ external c.state m j)

/-- A callback that waits for the filesystem waits for what a request holds, or for a reason of its
own. -/
lemma RtHeld.Inv.waits {external : RtState fs.toFsSig → ℕ → FsInstr fs.toFsSig → Prop}
    (hwait : ∀ {s : RtState fs.toFsSig} {n : ℕ} {i : FsInstr fs.toFsSig} {M : Multiset O.Held},
      O.inv s.fs M → (∃ h, ∀ r, ∃ h', O.after i r h = some h') → FsWaits s n (.fs i) →
      external s n i ∨ ∃ h ∈ M, blocks h i)
    {s : RtState fs.toFsSig} {n : ℕ} {i : FsInstr fs.toFsSig} {M : Multiset (RtHeld O.Held)}
    (hinv : RtHeld.Inv O s M) (hallowed : ∃ h K, (rtDiscipline fs O).spec (.fs i) h K)
    (hfs : FsWaits s n (.fs i)) : external s n i ∨ ∃ h ∈ M, h.Blocks blocks (.fs i) := by
  obtain ⟨h, K, hspec⟩ := hallowed
  have hown : ∃ own, ∀ r, ∃ own', O.after i r own = some own' := by
    refine ⟨h.own, fun r => ?_⟩
    obtain ⟨h', hafter, _⟩ := hspec r
    obtain ⟨own, hown, _⟩ := Option.map_eq_some_iff.mp hafter
    exact ⟨own, hown⟩
  rcases hwait hinv.2 hown hfs with hext | ⟨own, hmem, hblocks⟩
  · exact Or.inl hext
  · obtain ⟨h, hh, rfl⟩ := Multiset.mem_map.mp hmem
    exact Or.inr ⟨h, hh, hblocks⟩

/-- Every request that is not answered waits, possibly through others, for one that can move or is
held up. -/
lemma OwnDiscipline.Respected.exists_mover (hO : O.Respected) (hord : O.Ordered top level blocks)
    {external : RtState fs.toFsSig → ℕ → FsInstr fs.toFsSig → Prop}
    (hr : Run allow (start fs) c)
    (hwait : ∀ {s : RtState fs.toFsSig} {n : ℕ} {i : FsInstr fs.toFsSig} {M : Multiset O.Held},
      O.inv s.fs M → (∃ h, ∀ r, ∃ h', O.after i r h = some h') → FsWaits s n (.fs i) →
      external s n i ∨ ∃ h ∈ M, blocks h i)
    {n id : ℕ} {req : Request} {p : RtProg fs.toFsSig (Fallible Reply)}
    (ht : c.threads[n]? = some ⟨id, req, .running p⟩) :
    ∃ m, Relation.ReflTransGen ((rtDiscipline fs O).WaitsFor (RtHeld.Blocks blocks) c) n m ∧
      (c.Moves m ∨ HeldUp external c m) := by
  have hnumbered : c.Numbered := hr.numbered fun n t ht => by simp [start] at ht
  have hblocked : ∀ {m id : ℕ} {req : Request} {i : RtInstr fs.toFsSig}
      {k : i.Resp → RtProg fs.toFsSig (Fallible Reply)} {M : Multiset (RtHeld O.Held)},
      c.threads[m]? = some ⟨id, req, .running (.act i k)⟩ → RtHeld.Inv O c.state M →
      (∃ h K, (rtDiscipline fs O).spec i h K) → (∀ ch, c.state.exec id i ch = none) →
      (Exhausted c.state i ∨ ∃ j, i = .fs j ∧ external c.state id j) ∨
        ∃ h ∈ M, h.Blocks blocks i := by
    intro m id' req' i k M ht' hinv hallowed hnone
    rcases waits_cases hr ht' hnone with hex | hfs | ⟨k', arc, rfl, hmem⟩
    · exact Or.inl (Or.inl hex)
    · cases i with
      | fs i =>
        exact (hinv.waits hwait hallowed hfs).imp_left fun hext => Or.inr ⟨i, rfl, hext⟩
      | _ => exact hfs.elim
    · rw [hinv.1] at hmem
      obtain ⟨g, hg, hmem⟩ := Multiset.mem_join.mp hmem
      obtain ⟨h, hh, rfl⟩ := Multiset.mem_map.mp hg
      exact Or.inr ⟨h, hh, hmem⟩
  obtain ⟨m, hchain, hm⟩ := hord.runtime.exists_mover (rtDiscipline_kept hO hr) hblocked ht
  refine ⟨m, hchain, hm.imp_right ?_⟩
  rintro ⟨id', req', i, k, ht', hext⟩
  obtain rfl : id' = m := hnumbered m _ ht'
  exact ⟨req', i, ⟨id', k, ht'⟩, hext⟩

/-- The runtime is live over any filesystem whose own locks are ordered. -/
theorem OwnDiscipline.Respected.live (hO : O.Respected) (hord : O.Ordered top level blocks)
    {external : RtState fs.toFsSig → ℕ → FsInstr fs.toFsSig → Prop}
    (hr : Run anyAction (start fs) c)
    (hwait : ∀ {s : RtState fs.toFsSig} {n : ℕ} {i : FsInstr fs.toFsSig} {M : Multiset O.Held},
      O.inv s.fs M → (∃ h, ∀ r, ∃ h', O.after i r h = some h') → FsWaits s n (.fs i) →
      external s n i ∨ ∃ h ∈ M, blocks h i) :
    c.Live ((rtDiscipline fs O).WaitsFor (RtHeld.Blocks blocks)) (HeldUp external) := by
  refine .of_mover hord.runtime.acyclic ?_
  rintro c' hr' n ⟨id, req, phase⟩ p ht hp
  obtain rfl : phase = _ := hp
  exact hO.exists_mover hord (hr.trans hr'.any) hwait ht

end Ordered

/-! ## Any filesystem -/

section AnyFilesystem

variable {fs : NodeFs}

lemma wp_trivial {α : Type} (p : FsProg fs.toFsSig α) : Tidy (.trivial fs.toFsSig) (call p) := by
  intro l
  induction p with
  | ret a => exact rfl
  | act i k ih => exact fun r => ⟨_, rfl, ih r⟩

lemma wp_trivial_dir {D α : Type} (p : DirProg fs.toFsSig D α) :
    TidyDir (.trivial fs.toFsSig) p := by
  intro l
  induction p with
  | ret a => exact rfl
  | act i k ih =>
    cases i with
    | fs i => exact fun r => ⟨_, rfl, ih r⟩
    | add name id data nextOffset => exact fun taken => ih taken

/-- Nothing is known of a filesystem's own locks. -/
lemma respected_trivial : (OwnDiscipline.trivial fs.toFsSig).Respected where
  exec := fun _ _ _ => True.intro
  issue := fun _ => True.intro
  init := True.intro
  populate := wp_trivial _
  getattr := fun _ _ _ => wp_trivial _
  setattr := fun _ _ _ _ => wp_trivial _
  nodeOp := fun _ _ _ => wp_trivial _
  fileOp := fun _ _ _ _ => wp_trivial _
  fsyncdir := fun _ _ _ _ => wp_trivial _
  statfs := fun _ => wp_trivial _
  openNode := fun _ _ _ _ => wp_trivial _
  release := fun _ _ _ _ => wp_trivial _
  readdir := fun _ _ _ _ _ _ => wp_trivial_dir _
  readdirplus := fun _ _ _ _ _ _ => wp_trivial_dir _
  lookup := fun _ _ _ => wp_trivial _
  makeOp := fun _ _ => wp_trivial _
  treeOp := fun _ _ => wp_trivial _
  create := fun _ _ _ _ _ _ => wp_trivial _

lemma ordered_trivial : (OwnDiscipline.trivial fs.toFsSig).Ordered 0 (fun _ => 0)
    fun _ _ => False where
  level_le := fun _ => le_rfl
  free := fun _ h => h
  ascends := fun _ _ _ h => h.elim

/-- Request `n` waits to close a handle on which request `m` holds a lease: what is left of `m`
gives back exactly the leases that it holds, and this is one of them. -/
def WaitsToClose (c : Config (service fs)) (n m : ℕ) : Prop :=
  (rtDiscipline fs (.trivial fs.toFsSig)).WaitsFor (RtHeld.Blocks fun _ _ => False) c n m

/-- A callback drops a `NodeRef` that its filesystem does not own, which the types of the source
rule out. -/
def Disowned (s : RtState fs.toFsSig) (_ : ℕ) (i : FsInstr fs.toFsSig) : Prop :=
  ∃ r, i = .dropRef r ∧ r.key ∉ s.hist.fsRefs

/-- The runtime adds no deadlock to a filesystem whose own steps never wait: a request waits for
others only when it closes a handle that they hold leases on, and never in a cycle. -/
theorem runtime_live (hown : ∀ n (i : fs.Instr) s, ∃ ch, fs.exec n i ch s ≠ none)
    {c : Config (service fs)} (hr : Run anyAction (start fs) c) :
    c.Live WaitsToClose (HeldUp Disowned) := by
  refine respected_trivial.live ordered_trivial hr ?_
  intro s n i _ _ _ hwait
  cases i with
  | own i =>
    obtain ⟨ch, hch⟩ := hown n i s.fs
    exact absurd (hwait ch) hch
  | dropRef r => exact Or.inl ⟨r, rfl, hwait⟩
  | _ => exact hwait.elim

end AnyFilesystem

/-- A file is read while it is released. -/
private def closingInUse : List (Action (service Sample.fs)) :=
  [.issue (.openNode .file NodeId.ROOT 0 {})] ++ Sample.steps 0 4 ++ [.answer 0] ++
    [.issue (.getattr NodeId.ROOT (some 1) {})] ++ Sample.steps 1 4 ++
    [.issue (.release .file NodeId.ROOT 1 {})] ++ Sample.steps 2 4

/-- The release waits for the lease of the other request. -/
theorem runtime_live_closing : ∃ c : Config (service Sample.fs),
    Run anyAction (start Sample.fs) c ∧ c.state.hist.handleLeases = {(.file, 1)} ∧
      c.next (.step 2 none) = none ∧
      c.Live WaitsToClose (HeldUp Disowned) := by
  have hr : Run anyAction (start Sample.fs) (Sample.after Sample.anyCheck closingInUse) :=
    run_of_runs Sample.anyAction_of_check
      (show (start Sample.fs).runs Sample.anyCheck closingInUse = some _ from rfl)
  exact ⟨_, hr, by decide, rfl, runtime_live (fun _ i => Empty.elim i) hr⟩

end TypedFuse
