import TypedFuse.Conc.Trace
import TypedFuse.Core.Progress

/-!
# Clients of a filesystem

The callbacks of a `NodeFs` on their own, as a service.  Client processes call them, with the nodes
and the handles that the runtime passes on, and the calls of all clients run at the same time over
the state of the filesystem and the node table.  Only callbacks are performed, so whatever a call
waits for is up to the filesystem.
-/

namespace TypedFuse

open Conc Conc.Service TypedFuse.Runtime

/-- A call of a callback of the trait.  Of the sink of a listing it says which of the entries that
are offered are taken. -/
inductive NodeCall (σ : FsSig) where
  | getattr (node : σ.Node) (handle : Option (σ.Payload .file)) (caller : Caller)
  | setattr (node : σ.Node) (handle : Option (σ.Payload .file)) (set : SetAttr) (caller : Caller)
  | nodeOp (op : NodeOp) (node : σ.Node) (caller : Caller)
  | fileOp (op : FileOp) (node : σ.Node) (handle : σ.Payload .file) (caller : Caller)
  | fsyncdir (node : σ.Node) (handle : σ.Payload .dir) (datasync : Bool) (caller : Caller)
  | statfs (caller : Caller)
  | openNode (k : HandleKind) (node : σ.Node) (flags : ℤ) (caller : Caller)
  | release (k : HandleKind) (node : σ.Node) (handle : σ.Payload k) (caller : Caller)
  | readdir (node : σ.Node) (id parent : NodeId) (handle : σ.Payload .dir) (offset : ℕ)
      (takes : ℕ → Bool) (caller : Caller)
  | readdirplus (node : σ.Node) (id parent : NodeId) (handle : σ.Payload .dir) (offset : ℕ)
      (takes : ℕ → Bool) (caller : Caller)
  | lookup (parent : NodeId) (name : Name) (caller : Caller)
  | makeOp (op : MakeOp) (caller : Caller)
  | treeOp (op : TreeOp) (caller : Caller)
  | create (parent : NodeId) (name : Name) (mode umask : ℕ) (flags : ℤ) (caller : Caller)

/-- A call of a client process. -/
structure ClientCall (σ : FsSig) where
  client : ℕ
  call : NodeCall σ

/-- A callback whose outcome is not looked at. -/
def outcomeless {σ : FsSig} {α : Type} (p : RtProg σ α) : RtProg σ Unit := do
  let _ ← p
  return ()

/-- A directory callback over a sink that takes some of the entries. -/
def overSink {σ : FsSig} {D α : Type} (takes : ℕ → Bool) (p : DirProg σ D α) :
    RtProg σ (α × ℕ) :=
  p.handle
    (fun i offered =>
      match i with
      | .fs i => sect (.fs i) >>= fun r => return (r, offered)
      | .add _ _ _ _ => return (takes offered, offered + 1)) 0

/-- The program of a call. -/
def NodeFs.callback (fs : NodeFs) : NodeCall fs.toFsSig → RtProg fs.toFsSig Unit
  | .getattr node handle caller => outcomeless (call (fs.getattr node handle caller))
  | .setattr node handle set caller => outcomeless (call (fs.setattr node handle set caller))
  | .nodeOp op node caller => outcomeless (call (fs.nodeOp op node caller))
  | .fileOp op node handle caller => outcomeless (call (fs.fileOp op node handle caller))
  | .fsyncdir node handle datasync caller =>
    outcomeless (call (fs.fsyncdir node handle datasync caller))
  | .statfs caller => outcomeless (call (fs.statfs caller))
  | .openNode k node flags caller => outcomeless (call (fs.openNode k node flags caller))
  | .release k node handle caller => outcomeless (call (fs.release k node handle caller))
  | .readdir node id parent handle offset takes caller =>
    outcomeless (overSink takes (fs.readdir node id parent handle offset caller))
  | .readdirplus node id parent handle offset takes caller =>
    outcomeless (overSink takes (fs.readdirplus node id parent handle offset caller))
  | .lookup parent name caller => outcomeless (call (fs.lookup parent name caller))
  | .makeOp op caller => outcomeless (call (fs.makeOp op caller))
  | .treeOp op caller => outcomeless (call (fs.treeOp op caller))
  | .create parent name mode umask flags caller =>
    outcomeless (call (fs.create parent name mode umask flags caller))

/-- The clients of a filesystem, as a service. -/
def clients (fs : NodeFs) : Service where
  Instr := RtInstr fs.toFsSig
  Resp := RtInstr.Resp
  Choice := Option fs.Choice
  State := RtState fs.toFsSig
  Req := ClientCall fs.toFsSig
  Ans := Unit
  exec := fun n i ch s => s.exec n i ch
  prog := fun req => fs.callback req.call
  issue := fun _ _ s => some s
  answer := fun _ _ _ s => s

/-- Before the first call. -/
def clientsStart (fs : NodeFs) : Config (clients fs) where
  state := new fs
  threads := []

variable {fs : NodeFs}

/-- A client makes its next call after the previous one has returned. -/
def OneEach (c : Config (clients fs)) : Action (clients fs) → Prop
  | .issue req => ∀ t ∈ c.threads, t.req.client = req.client → ∃ a, t.phase = .done a
  | _ => True

/-- A call of the client is under way. -/
def Busy (c : Config (clients fs)) (client : ℕ) : Prop :=
  ∃ (n : ℕ) (t : Thread (clients fs)) (p : RtProg fs.toFsSig Unit),
    c.threads[n]? = some t ∧ t.phase = .running p ∧ t.req.client = client

/-- A client has one call under way. -/
lemma single_of_run {allow : Config (clients fs) → Action (clients fs) → Prop}
    (hallow : ∀ c a, allow c a → OneEach c a) {c : Config (clients fs)}
    (hr : Run allow (clientsStart fs) c) :
    ∀ {n m id id' : ℕ} {req req' : ClientCall fs.toFsSig} {p p' : RtProg fs.toFsSig Unit},
      c.threads[n]? = some ⟨id, req, .running p⟩ →
      c.threads[m]? = some ⟨id', req', .running p'⟩ → req.client = req'.client → n = m := by
  induction hr with
  | refl =>
    intro n m id id' req req' p p' hn
    simp [clientsStart] at hn
  | tail a _ ha hnext ih =>
    intro n m id id' req req' p p' hn hm hclient
    rcases running_before hnext hn with ⟨q, hn'⟩ | ⟨rfl, rfl⟩
    · rcases running_before hnext hm with ⟨q', hm'⟩ | ⟨rfl, rfl⟩
      · exact ih hn' hm' hclient
      · obtain ⟨_, hdone⟩ := hallow _ _ ha _ (List.mem_of_getElem? hn') hclient
        cases hdone
    · rcases running_before hnext hm with ⟨q', hm'⟩ | ⟨_, rfl⟩
      · obtain ⟨_, hdone⟩ := hallow _ _ ha _ (List.mem_of_getElem? hm') hclient.symm
        cases hdone
      · rfl

/-- A call that was just issued has its whole program left. -/
lemma start_at {m id : ℕ} {req req' : ClientCall fs.toFsSig} {p : RtProg fs.toFsSig Unit}
    (h : (⟨id, req, .running p⟩ : Thread (clients fs)) = Thread.start m req') :
    req = req' ∧ p = fs.callback req.call := by
  unfold Thread.start at h
  injection h with _ hreq hphase
  injection hphase with hp
  exact ⟨hreq, hreq ▸ hp⟩

/-! ## Programs of calls -/

section Programs

variable {σ : FsSig} {α D : Type} {J : RtInstr σ → Prop}

/-- Not to look at the outcome takes no instruction. -/
lemma Prog.Performs.outcomeless {p : RtProg σ α} (hp : p.Performs J) :
    (TypedFuse.outcomeless p).Performs J :=
  hp.bind fun _ => trivial

/-- A directory callback performs the same instructions over a sink. -/
lemma performs_overSink {takes : ℕ → Bool} {p : DirProg σ D α}
    (hp : p.Performs fun i => ∀ j, i = .fs j → J (.fs j)) : (overSink takes p).Performs J := by
  refine Prog.Performs.handle ?_ hp 0
  intro i offered hi
  cases i with
  | fs i => exact ⟨hi i rfl, fun _ => trivial⟩
  | add name id data nextOffset => trivial

end Programs

/-- Calls only perform callbacks. -/
lemma performs_callback (call : NodeCall fs.toFsSig) :
    (fs.callback call).Performs fun i => ∃ j, i = .fs j := by
  have hcall : ∀ {α : Type} (p : FsProg fs.toFsSig α),
      (outcomeless (Runtime.call p)).Performs fun i => ∃ j, i = .fs j :=
    fun p => Prog.Performs.outcomeless (Prog.performs_embed (fun i => ⟨i, rfl⟩) p)
  have hdir : ∀ {α D : Type} (takes : ℕ → Bool) (p : DirProg fs.toFsSig D α),
      (outcomeless (overSink takes p)).Performs fun i => ∃ j, i = .fs j := by
    intro α D takes p
    refine Prog.Performs.outcomeless (performs_overSink ?_)
    induction p with
    | ret a => trivial
    | act i k ih => exact ⟨fun j _ => ⟨j, rfl⟩, ih⟩
  cases call with
  | readdir | readdirplus => exact hdir _ _
  | _ => exact hcall _

/-- What the program of a call and every step keep is true of what is left of every call. -/
lemma running_of_run {I : ClientCall fs.toFsSig → RtProg fs.toFsSig Unit → Prop}
    (hprog : ∀ req, I req (fs.callback req.call))
    (hstep : ∀ {req} {i : RtInstr fs.toFsSig} {k : i.Resp → RtProg fs.toFsSig Unit}
      (r : i.Resp),
      I req (.act i k) → I req (k r))
    {allow : Config (clients fs) → Action (clients fs) → Prop} {c : Config (clients fs)}
    (hr : Run allow (clientsStart fs) c) {n id : ℕ} {req : ClientCall fs.toFsSig}
    {p : RtProg fs.toFsSig Unit} (ht : c.threads[n]? = some ⟨id, req, .running p⟩) :
    I req p := by
  obtain ⟨es, htr⟩ := hr.traced
  exact (htr.plays rfl ht).keeps (I := I req) (fun r => hstep r) (hprog req)

/-- In a run too. -/
lemma callback_of_at {allow : Config (clients fs) → Action (clients fs) → Prop}
    {c : Config (clients fs)} (hr : Run allow (clientsStart fs) c) {n : ℕ}
    {req : ClientCall fs.toFsSig} {i : RtInstr fs.toFsSig} (h : c.At n req i) :
    ∃ j, i = .fs j := by
  obtain ⟨id, k, hn⟩ := h
  exact (running_of_run (I := fun _ p => p.Performs fun i => ∃ j, i = RtInstr.fs j)
    (fun req => performs_callback req.call) (fun r hp => hp.2 r) hr hn).1

/-! ## The discipline of the clients -/

section Discipline

variable {O : OwnDiscipline fs.toFsSig}

/-- The discipline of the runtime, for the callbacks alone. -/
noncomputable def clientDiscipline (fs : NodeFs) (O : OwnDiscipline fs.toFsSig) :
    Discipline (clients fs) where
  Held := RtHeld O.Held
  free := ⟨0, O.free⟩
  after := RtHeld.after O
  inv := fun s M => RtHeld.Inv O s M

/-- Every call gives back what it takes. -/
lemma callback_keeps (hO : O.Respected) (call : NodeCall fs.toFsSig) :
    (clientDiscipline fs O).Keeps ⟨0, O.free⟩ (fs.callback call)
      fun _ h => h = ⟨0, O.free⟩ := by
  have hcall : ∀ {α : Type} {p : RtProg fs.toFsSig α}, Tidy O p →
      (clientDiscipline fs O).Keeps ⟨0, O.free⟩ (outcomeless p)
        fun _ h => h = ⟨0, O.free⟩ :=
    fun hp => Tidy.bind hp (fun _ => Tidy.ret ()) 0
  have hdir : ∀ {α D : Type} {p : DirProg fs.toFsSig D α} (takes : ℕ → Bool),
      TidyDir O p → Tidy O (overSink takes p) := by
    intro α D p takes hp
    refine hp.handle (fun _ _ => rfl) ?_ 0
    exact fun _ _ _ _ _ _ => rfl
  cases call with
  | getattr node handle caller => exact hcall (hO.getattr node handle caller)
  | setattr node handle set caller => exact hcall (hO.setattr node handle set caller)
  | nodeOp op node caller => exact hcall (hO.nodeOp op node caller)
  | fileOp op node handle caller => exact hcall (hO.fileOp op node handle caller)
  | fsyncdir node handle datasync caller => exact hcall (hO.fsyncdir node handle datasync caller)
  | statfs caller => exact hcall (hO.statfs caller)
  | openNode k node flags caller => exact hcall (hO.openNode k node flags caller)
  | release k node handle caller => exact hcall (hO.release k node handle caller)
  | readdir node id parent handle offset takes caller =>
    exact hcall (hdir takes (hO.readdir node id parent handle offset caller))
  | readdirplus node id parent handle offset takes caller =>
    exact hcall (hdir takes (hO.readdirplus node id parent handle offset caller))
  | lookup parent name caller => exact hcall (hO.lookup parent name caller)
  | makeOp op caller => exact hcall (hO.makeOp op caller)
  | treeOp op caller => exact hcall (hO.treeOp op caller)
  | create parent name mode umask flags caller =>
    exact hcall (hO.create parent name mode umask flags caller)

/-- The discipline is kept along every run. -/
lemma clientDiscipline_kept (hO : O.Respected)
    {allow : Config (clients fs) → Action (clients fs) → Prop} {c : Config (clients fs)}
    (hr : Run allow (clientsStart fs) c) : (clientDiscipline fs O).Kept c := by
  have hsound : (clientDiscipline fs O).Sound :=
    { exec := fun he hafter hinv => RtHeld.Inv.exec hO he hafter hinv
      issue := by
        intro n req s s' M hissue hinv
        obtain rfl := Option.some.inj hissue
        exact RtHeld.Inv.fresh hO hinv
      answer := fun hinv => hinv
      prog := fun req => callback_keeps hO req.call }
  exact hsound.kept ⟨[], .nil, rfl, hO.init⟩ hr

variable {top : ℕ} {level : FsInstr fs.toFsSig → ℕ}
  {blocks : O.Held → FsInstr fs.toFsSig → Prop}

/-- The locks of the filesystem stay ordered. -/
lemma clientDiscipline_ordered (hord : O.Ordered top level blocks) :
    (clientDiscipline fs O).Ordered (top + 2) (RtInstr.level top level) (RtHeld.Blocks blocks) :=
  ⟨hord.runtime.level_le, hord.runtime.free, hord.runtime.ascends⟩

/-- A call waits for no other call: a counter is at its limit, or the filesystem makes it wait for a
reason of its own. -/
def CallHeldUp (external : RtState fs.toFsSig → ℕ → FsInstr fs.toFsSig → Prop)
    (c : Config (clients fs)) (m : ℕ) : Prop :=
  ∃ req i, c.At m req (.fs i) ∧ (Exhausted c.state (.fs i) ∨ external c.state m i)

/-- Every call that has not returned waits, possibly through others, for one that can move or that
waits for no other call. -/
lemma clients_exists_mover (hO : O.Respected) (hord : O.Ordered top level blocks)
    {external : RtState fs.toFsSig → ℕ → FsInstr fs.toFsSig → Prop}
    {allow : Config (clients fs) → Action (clients fs) → Prop} {c : Config (clients fs)}
    (hr : Run allow (clientsStart fs) c)
    (hwait : ∀ {s : RtState fs.toFsSig} {n : ℕ} {i : FsInstr fs.toFsSig} {M : Multiset O.Held},
      O.inv s.fs M → (∃ h, ∀ r, ∃ h', O.after i r h = some h') → FsWaits s n (.fs i) →
      external s n i ∨ ∃ h ∈ M, blocks h i)
    {n id : ℕ} {req : ClientCall fs.toFsSig} {p : RtProg fs.toFsSig Unit}
    (ht : c.threads[n]? = some ⟨id, req, .running p⟩) :
    ∃ m, Relation.ReflTransGen ((clientDiscipline fs O).WaitsFor (RtHeld.Blocks blocks) c) n m ∧
      (c.Moves m ∨ CallHeldUp external c m) := by
  have hnumbered : c.Numbered := hr.numbered fun n t ht => by simp [clientsStart] at ht
  have hblocked : ∀ {m id : ℕ} {req : ClientCall fs.toFsSig} {i : RtInstr fs.toFsSig}
      {k : i.Resp → RtProg fs.toFsSig Unit} {M : Multiset (RtHeld O.Held)},
      c.threads[m]? = some ⟨id, req, .running (.act i k)⟩ → RtHeld.Inv O c.state M →
      (∃ h K, (clientDiscipline fs O).spec i h K) → (∀ ch, c.state.exec id i ch = none) →
      (∃ j, i = .fs j ∧ (Exhausted c.state (.fs j) ∨ external c.state id j)) ∨
        ∃ h ∈ M, h.Blocks blocks i := by
    intro m id' req' i k M ht' hinv hallowed hnone
    obtain ⟨i, rfl⟩ := callback_of_at hr ⟨id', k, ht'⟩
    rcases execFs_waits hnone with hex | hfs
    · exact Or.inl ⟨i, rfl, Or.inl hex⟩
    · exact (hinv.waits hwait hallowed hfs).imp_left fun hext => ⟨i, rfl, Or.inr hext⟩
  obtain ⟨m, hchain, hm⟩ := (clientDiscipline_ordered hord).exists_mover
    (clientDiscipline_kept hO hr) hblocked ht
  refine ⟨m, hchain, hm.imp_right ?_⟩
  rintro ⟨id', req', i, k, ht', j, rfl, hext⟩
  obtain rfl : id' = m := hnumbered m _ ht'
  exact ⟨req', j, ⟨id', k, ht'⟩, hext⟩

end Discipline

end TypedFuse
