import TypedFuse.Core.Sample
import TypedFuse.Session.Retained
import TypedFuse.Session.Served

/-!
# Undelivered replies

What the trampolines do when `fuse_reply_entry`, `fuse_reply_create`, `fuse_reply_open` or
`fuse_reply_buf` reports that the kernel has not received the reply: `readdirplus_shim` forgets what
the listing has retained, and all others do nothing.  `Ledger` is what the kernel knows, a `Session`
is a sequence of requests whose replies are delivered or lost, and `Balanced` says that the runtime
agrees with the ledger.  It does as long as every step is `Recoverable`: no lost reply can carry an
entry or a handle that its trampoline leaves registered, no listing that is delivered can have a
name that its buffer skips, and no callback can unwind after an entry was accepted.
-/

namespace TypedFuse

open Conc Conc.Service NodeTable TypedFuse.Runtime

variable {fs : NodeFs} {n : ℕ} {α β : Type}

/-! ## What a reply can hand out -/

/-- The reply can be sent.  Attributes that cannot be converted make the trampoline panic outside
of `catch_unwind`, which ends the process. -/
def Sends : Fallible Reply → Prop
  | .ok (.entry e) => e.reply.attr.Convertible
  | .ok (.created e _ _) => e.reply.attr.Convertible
  | .ok (.attr attr) => attr.Convertible
  | _ => True

/-- `Runtime::entry_for` can succeed for a node: it is live, its attributes can be read and sent,
and then it is still live and takes a lookup. -/
def CanEnter (fs : NodeFs) (n : ℕ) (id : NodeId) (caller : Caller)
    (s s' : RtState fs.toFsSig) : Prop :=
  ∃ denoted node attr generation s₁ s₂ s₃ s₄ ch₁ ch₂ ch₃ ch₄,
    (service fs).exec n (.denote id) ch₁ s = some (denoted, s₁) ∧
    (service fs).exec n (.lease id) ch₂ s₁ = some (some node, s₂) ∧
    Alone (service fs) n (Runtime.call (fs.getattr node.record.payload none caller)) s₂ (.ok attr)
      s₃ ∧ attr.Convertible ∧
    (service fs).exec n (.grant id) ch₃ s₃ = some (some generation, s₄) ∧
    (service fs).exec n (.dropNode node) ch₄ s₄ = some ((), s')

/-- An open of a node can be counted and a handle be registered for it. -/
def CanOpen (fs : NodeFs) (n : ℕ) (k : HandleKind) (id : NodeId) (payload : fs.Payload k)
    (s : RtState fs.toFsSig) : Prop :=
  ∃ fh s₁ s₂ ch₁ ch₂,
    (service fs).exec n (.addOpen id) ch₁ s = some (true, s₁) ∧
    (service fs).exec n (.addHandle k id payload) ch₂ s₁ = some (fh, s₂)

/-- The request can succeed with an entry or a handle, other than the entries of a listing. -/
def CanHand (c : Config (service fs)) : Request → Prop
  | .lookup parent name caller => ∃ id s s',
    Alone (service fs) c.threads.length (Runtime.call (fs.lookup parent name caller)) c.state
      (.ok (some id)) s ∧ CanEnter fs c.threads.length id caller s s'
  | .makeOp op caller => ∃ id s s',
    Alone (service fs) c.threads.length (Runtime.call (fs.makeOp op caller)) c.state (.ok id) s ∧
      CanEnter fs c.threads.length id caller s s'
  | .create parent name mode umask flags caller => ∃ id opened s s',
    Alone (service fs) c.threads.length
      (Runtime.call (fs.create parent name mode umask flags caller)) c.state
      (.ok (id, opened)) s ∧
      CanEnter fs c.threads.length id caller s s' ∧
      CanOpen fs c.threads.length .file id opened.handle s'
  | .openNode k ino flags caller => ∃ node opened s s' ch,
    (service fs).exec c.threads.length (.node ino) ch c.state = some (some node, s) ∧
    Alone (service fs) c.threads.length
      (Runtime.call (fs.openNode k node.record.payload flags caller))
      s (.ok opened) s' ∧ CanOpen fs c.threads.length k ino opened.handle s'
  | _ => False

section Alone

variable {s s' : RtState fs.toFsSig}

/-- A section, then the rest. -/
lemma alone_sect {i : RtInstr fs.toFsSig} {f : i.Resp → RtProg fs.toFsSig α} {a : α} :
    Alone (service fs) n (Runtime.sect i >>= f) s a s' ↔
      ∃ ch r s₁, (service fs).exec n i ch s = some (r, s₁) ∧
        Alone (service fs) n (f r) s₁ a s' := by
  constructor
  · intro h
    cases h with
    | act he hf => exact ⟨_, _, _, he, hf⟩
  · rintro ⟨ch, r, s₁, he, hf⟩
    exact alone_perform he hf

/-- The reply to a success. -/
lemma alone_reply {p : RtProg fs.toFsSig (Fallible α)} {reply : α → β} {a : Fallible β} :
    Alone (service fs) n (p >>= fun r => .ret (r.map reply)) s a s' ↔
      ∃ r, Alone (service fs) n p s r s' ∧ a = r.map reply := by
  refine alone_bind.trans ?_
  constructor
  · rintro ⟨r, s₁, hp, hret⟩
    obtain ⟨rfl, rfl⟩ := alone_ret.mp hret
    exact ⟨r, hp, rfl⟩
  · rintro ⟨r, hp, rfl⟩
    exact ⟨r, s', hp, .ret _ _⟩

/-- A callback, and the rest if it succeeds. -/
lemma alone_onOk {p : FsProg fs.toFsSig (Fallible α)}
    {next : α → RtProg fs.toFsSig (Fallible β)} {b : β} :
    Alone (service fs) n (Runtime.call p >>= fun r => Runtime.onOk r next) s (.ok b) s' ↔
      ∃ a s₁, Alone (service fs) n (Runtime.call p) s (.ok a) s₁ ∧
        Alone (service fs) n (next a) s₁ (.ok b) s' := by
  refine alone_bind.trans ?_
  constructor
  · rintro ⟨r, s₁, hp, hrest⟩
    cases r with
    | error e =>
      obtain ⟨heq, _⟩ := alone_ret.mp hrest
      cases heq
    | ok a => exact ⟨a, s₁, hp, hrest⟩
  · rintro ⟨a, s₁, hp, hrest⟩
    exact ⟨.ok a, s₁, hp, hrest⟩

/-- Dropping a node, then returning. -/
lemma alone_dropNode {node : NodeRef fs.Node} {a b : α} :
    Alone (service fs) n (Runtime.sect (.dropNode node) >>= fun _ => .ret a) s b s' ↔
      b = a ∧ ∃ ch, (service fs).exec n (.dropNode node) ch s = some ((), s') := by
  refine alone_sect.trans ?_
  constructor
  · rintro ⟨ch, _, s₁, he, hret⟩
    obtain ⟨rfl, rfl⟩ := alone_ret.mp hret
    exact ⟨rfl, ch, he⟩
  · rintro ⟨rfl, ch, he⟩
    exact ⟨ch, (), s', he, .ret _ _⟩

/-- When `Runtime::entry_for` succeeds. -/
lemma canEnter_iff {id : NodeId} {caller : Caller} :
    CanEnter fs n id caller s s' ↔
      ∃ e, Alone (service fs) n (Runtime.entryFor fs id caller) s (.ok e) s' ∧
        e.reply.attr.Convertible := by
  constructor
  · rintro ⟨denoted, node, attr, generation, s₁, s₂, s₃, s₄, ch₁, ch₂, ch₃, ch₄,
      hdenote, hlease, hcall, hattr, hgrant, hdrop⟩
    refine ⟨⟨⟨id, generation, attr⟩, denoted, node.record.addr⟩, ?_, hattr⟩
    refine alone_perform hdenote (alone_perform hlease (alone_bind.mpr ⟨_, _, hcall, ?_⟩))
    exact alone_perform hgrant (alone_dropNode.mpr ⟨rfl, ch₄, hdrop⟩)
  · rintro ⟨e, halone, hattr⟩
    obtain ⟨ch₁, denoted, s₁, hdenote, hrest⟩ := alone_sect.mp halone
    obtain ⟨ch₂, node, s₂, hlease, hrest⟩ := alone_sect.mp hrest
    cases node with
    | none => exact (nomatch (alone_ret.mp hrest).1)
    | some node =>
      obtain ⟨r, s₃, hcall, hrest⟩ := alone_bind.mp hrest
      cases r with
      | error e => exact (nomatch (alone_dropNode.mp hrest).1)
      | ok attr =>
        obtain ⟨ch₃, generation, s₄, hgrant, hrest⟩ := alone_sect.mp hrest
        cases generation with
        | none => exact (nomatch (alone_dropNode.mp hrest).1)
        | some generation =>
          obtain ⟨heq, ch₄, hdrop⟩ := alone_dropNode.mp hrest
          obtain rfl := Except.ok.inj heq
          exact ⟨denoted, node, attr, generation, s₁, s₂, s₃, s₄, ch₁, ch₂, ch₃,
            ch₄, hdenote, hlease, hcall, hattr, hgrant, hdrop⟩

/-- When the rest of an open succeeds. -/
lemma alone_open {k : HandleKind} {id : NodeId} {payload : fs.Payload k} {ok : ℕ → α}
    {orElse : RtProg fs.toFsSig (Fallible α)} {a : α}
    (h : Alone (service fs) n (Runtime.sect (.addOpen id) >>= fun live : Bool =>
      if live then Runtime.sect (.addHandle k id payload) >>= fun fh => .ret (.ok (ok fh))
      else orElse) s (.ok a) s') (hfails : orElse.Returns fun r => ∃ e, r = .error e) :
    CanOpen fs n k id payload s ∧ ∃ fh, a = ok fh := by
  obtain ⟨ch₁, live, s₁, hopen, hrest⟩ := alone_sect.mp h
  cases live with
  | true =>
    obtain ⟨ch₂, fh, s₂, hadd, hret⟩ := alone_sect.mp hrest
    exact ⟨⟨fh, s₁, s₂, ch₁, ch₂, hopen, hadd⟩, fh,
      Except.ok.inj (alone_ret.mp hret).1⟩
  | false =>
    obtain ⟨e, heq⟩ := hrest.returns hfails
    cases heq

/-- The rest of an open that can succeed. -/
lemma CanOpen.alone {k : HandleKind} {id : NodeId} {payload : fs.Payload k}
    (h : CanOpen fs n k id payload s) (ok : ℕ → α) (orElse : RtProg fs.toFsSig (Fallible α)) :
    ∃ fh s', Alone (service fs) n (Runtime.sect (.addOpen id) >>= fun live : Bool =>
      if live then Runtime.sect (.addHandle k id payload) >>= fun fh => .ret (.ok (ok fh))
      else orElse) s (.ok (ok fh)) s' := by
  obtain ⟨fh, s₁, s₂, ch₁, ch₂, hopen, hadd⟩ := h
  exact ⟨fh, s₂, alone_perform hopen (alone_ite rfl (alone_perform hadd (.ret _ _)))⟩

end Alone

/-- A lost reply has handed out nothing but what its trampoline takes back. -/
def Returnable (req : Request) (a : Fallible Reply) : Prop :=
  givenBy a = retainedBy a ∧ handed req a = none

section Hands

variable {c : Config (service fs)} {req : Request} {a : Fallible Reply} {s' : RtState fs.toFsSig}

/-- Only a request that can hand something out does. -/
lemma canHand_of_alone (h : Alone (service fs) c.threads.length (serve fs req) c.state a s')
    (hsends : Sends a) (hnot : ¬ Returnable req a) : CanHand c req := by
  have hreturns := h.returns (returns_serve req)
  cases req with
  | lookup parent name caller =>
    obtain ⟨r, hlookup, rfl⟩ := alone_reply.mp h
    match r with
    | .error e => exact absurd ⟨rfl, rfl⟩ hnot
    | .ok none => exact absurd ⟨rfl, rfl⟩ hnot
    | .ok (some e) =>
      obtain ⟨found, s₁, hcall, hrest⟩ := alone_onOk.mp hlookup
      cases found with
      | none => exact (nomatch (alone_ret.mp hrest).1)
      | some id =>
        obtain ⟨r, hentry, heq⟩ := alone_reply.mp hrest
        cases r with
        | error e => cases heq
        | ok e' =>
          obtain rfl := Option.some.inj (Except.ok.inj heq)
          exact ⟨id, s₁, s', hcall, canEnter_iff.mpr ⟨e, hentry, hsends⟩⟩
  | makeOp op caller =>
    obtain ⟨r, hmake, rfl⟩ := alone_reply.mp h
    cases r with
    | error e => exact absurd ⟨rfl, rfl⟩ hnot
    | ok e =>
      obtain ⟨id, s₁, hcall, hentry⟩ := alone_onOk.mp hmake
      exact ⟨id, s₁, s', hcall, canEnter_iff.mpr ⟨e, hentry, hsends⟩⟩
  | openNode k ino flags caller =>
    obtain ⟨r, hopen, rfl⟩ := alone_reply.mp h
    cases r with
    | error e => exact absurd ⟨rfl, rfl⟩ hnot
    | ok o =>
      obtain ⟨ch, node, s₁, hnode, hrest⟩ := alone_sect.mp hopen
      cases node with
      | none => exact (nomatch (alone_ret.mp hrest).1)
      | some node =>
        obtain ⟨r, s₂, hbody, hdrop⟩ := alone_bind.mp hrest
        obtain ⟨rfl, _⟩ := alone_dropNode.mp hdrop
        obtain ⟨opened, s₃, hcall, hrest⟩ := alone_onOk.mp hbody
        have hcan := alone_open hrest fun _ => ⟨_, rfl⟩
        exact ⟨node, opened, s₁, s₃, ch, hnode, hcall, hcan.1⟩
  | create parent name mode umask flags caller =>
    obtain ⟨r, hcreate, rfl⟩ := alone_reply.mp h
    cases r with
    | error e => exact absurd ⟨rfl, rfl⟩ hnot
    | ok made =>
      obtain ⟨⟨id, opened⟩, s₁, hcall, hrest⟩ := alone_onOk.mp hcreate
      obtain ⟨r, s₂, hentry, hrest⟩ := alone_bind.mp hrest
      cases r with
      | error e =>
        obtain ⟨_, _, _, _, hret⟩ := alone_sect.mp hrest
        exact (nomatch (alone_ret.mp hret).1)
      | ok e =>
        obtain ⟨hopen, fh, rfl⟩ := alone_open hrest fun _ _ => ⟨_, rfl⟩
        exact ⟨id, opened, s₁, s₂, hcall, canEnter_iff.mpr ⟨e, hentry, hsends⟩, hopen⟩
  | readdir ino fh offset sink caller =>
    obtain ⟨r, _, rfl⟩ := alone_reply.mp h
    cases r with
    | error e => exact absurd ⟨rfl, rfl⟩ hnot
    | ok offered => exact absurd ⟨rfl, rfl⟩ hnot
  | readdirplus ino fh offset sink caller =>
    obtain ⟨r, _, rfl⟩ := alone_reply.mp h
    cases r with
    | error e => exact absurd ⟨rfl, rfl⟩ hnot
    | ok l => exact absurd ⟨rfl, rfl⟩ hnot
  | populate | forget | statfs | getattr | setattr | nodeOp | fileOp | fsyncdir | release
  | treeOp =>
    refine absurd ⟨?_, rfl⟩ hnot
    rw [hreturns.1 id, hreturns.2 id]

/-- A request that can hand something out does so in some run. -/
lemma CanHand.alone (h : CanHand c req) : ∃ a s',
    Alone (service fs) c.threads.length (serve fs req) c.state a s' ∧ Sends a ∧
      ¬ Returnable req a ∧ retainedBy a = [] := by
  cases req with
  | lookup parent name caller =>
    obtain ⟨id, s, s', hcall, henter⟩ := h
    obtain ⟨e, hentry, hattr⟩ := canEnter_iff.mp henter
    refine ⟨.ok (.entry e), s', alone_reply.mpr ⟨.ok (some e), ?_, rfl⟩, hattr, ?_, rfl⟩
    · exact alone_onOk.mpr ⟨some id, s, hcall, alone_reply.mpr ⟨.ok e, hentry, rfl⟩⟩
    · exact fun hreturnable => nomatch hreturnable.1
  | makeOp op caller =>
    obtain ⟨id, s, s', hcall, henter⟩ := h
    obtain ⟨e, hentry, hattr⟩ := canEnter_iff.mp henter
    refine ⟨.ok (.entry e), s', alone_reply.mpr ⟨.ok e, ?_, rfl⟩, hattr, ?_, rfl⟩
    · exact alone_onOk.mpr ⟨id, s, hcall, hentry⟩
    · exact fun hreturnable => nomatch hreturnable.1
  | openNode k ino flags caller =>
    obtain ⟨node, opened, s, s₁, ch, hnode, hcall, hopen⟩ := h
    obtain ⟨fh, s₂, hrest⟩ := hopen.alone (fun fh => (fh, opened.hints))
      (do Runtime.sect (.discard k opened.handle); return fail .ENOENT)
    obtain ⟨s₃, hdrop⟩ : ∃ s₃,
        (service fs).exec c.threads.length (.dropNode node) none s₂ = some ((), s₃) :=
      ⟨_, rfl⟩
    refine ⟨.ok (.opened fh opened.hints), s₃,
      alone_reply.mpr ⟨.ok (fh, opened.hints), ?_, rfl⟩, trivial, ?_, rfl⟩
    · refine alone_perform hnode (alone_bind.mpr ⟨.ok (fh, opened.hints), s₂, ?_, ?_⟩)
      · exact alone_onOk.mpr ⟨opened, s₁, hcall, hrest⟩
      · exact alone_dropNode.mpr ⟨rfl, none, hdrop⟩
    · exact fun hreturnable => nomatch hreturnable.2
  | create parent name mode umask flags caller =>
    obtain ⟨id, opened, s, s₁, hcall, henter, hopen⟩ := h
    obtain ⟨e, hentry, hattr⟩ := canEnter_iff.mp henter
    obtain ⟨fh, s₂, hrest⟩ := hopen.alone (fun fh => (e, fh, opened.hints))
      (do Runtime.sect (.leak [id]); Runtime.sect (.discard .file opened.handle)
          return fail .ENOENT)
    refine ⟨.ok (.created e fh opened.hints), s₂,
      alone_reply.mpr ⟨.ok (e, fh, opened.hints), ?_, rfl⟩, hattr, ?_, rfl⟩
    · exact alone_onOk.mpr ⟨(id, opened), s, hcall,
        alone_bind.mpr ⟨.ok e, s₁, hentry, hrest⟩⟩
    · exact fun hreturnable => nomatch hreturnable.2
  | _ => exact h.elim

end Hands

/-! ## Sessions -/

/-- What the kernel asks of a trampoline.  The sink of a `readdirplus` is its `DirBuffer`; an offset
below zero is refused without the runtime. -/
inductive Ask where
  | readdirplus (ino size fh off : ℕ) (caller : Caller)
  | other (req : Request) (h : ¬ req.Lists)

/-- What the trampoline asks of the runtime. -/
def Ask.request (fmt : Format EntryParam) (ttl : Duration) : Ask → Request
  | .readdirplus ino size fh off caller => readdirplusRequest fmt ttl ino size fh caller off
  | .other req _ => req

/-- The inodes of the entries in a reply.  Those of a listing are the ones of the records in its
buffer, without dots. -/
def Ask.entries (fmt : Format EntryParam) (ttl : Duration) : Ask → Fallible Reply → Multiset ℕ
  | .readdirplus _ size _ _ _, .ok (.retained _ offered) =>
    (((DirBuffer.sent fmt ttl size offered).filter fun e => ¬ e.name.isDots).map
      fun e => e.entry.ino : List ℕ)
  | .other _ _, .ok (.entry e) => {e.reply.ino}
  | .other _ _, .ok (.created e _ _) => {e.reply.ino}
  | _, _ => 0

/-- What the kernel knows: the entries that it has received, those that it has given back, and the
handles that it has open. -/
structure Ledger where
  delivered : Multiset ℕ := 0
  forgotten : Multiset ℕ := 0
  opened : Finset (HandleKind × ℕ × ℕ) := ∅

namespace Ledger

/-- The kernel sends a request. -/
def issued (l : Ledger) (req : Request) : Ledger :=
  { l with
    forgotten := req.forgets + l.forgotten
    opened := l.opened \ (TypedFuse.released req).toFinset }

/-- The kernel receives entries and a handle. -/
def received (l : Ledger) (entries : Multiset ℕ) (handle : Option (HandleKind × ℕ × ℕ)) :
    Ledger :=
  { l with
    delivered := entries + l.delivered
    opened := handle.toFinset ∪ l.opened }

/-- The kernel forgets only entries that it has received. -/
def Honest (l : Ledger) : Request → Prop
  | .forget ino nlookup => l.forgotten.count ino + nlookup ≤ l.delivered.count ino
  | _ => True

end Ledger

variable {fmt : Format EntryParam} {ttl : Duration}

variable (fmt ttl) in
/-- A request is served and its reply is delivered, or it is lost (`true`) and the trampoline
forgets the lookups that a listing has retained. -/
inductive Exchange (c : Config (service fs)) (l : Ledger) (ask : Ask) (a : Fallible Reply) :
    Bool → Config (service fs) → Ledger → Prop
  | delivered {c' : Config (service fs)} : l.Honest (ask.request fmt ttl) →
      Serves c (ask.request fmt ttl) a c' → Sends a →
      Exchange c l ask a false c' ((l.issued (ask.request fmt ttl)).received
        (ask.entries fmt ttl a) (handed (ask.request fmt ttl) a))
  | lost {c₁ c' : Config (service fs)} : l.Honest (ask.request fmt ttl) →
      Serves c (ask.request fmt ttl) a c₁ → Sends a → Forgets c₁ (retainedBy a) c' →
      Exchange c l ask a true c' (l.issued (ask.request fmt ttl))

variable (fmt ttl) in
/-- A sequence of requests and replies, from the start, in which every request and the fate of its
reply meet a condition on the configuration before it. -/
inductive Session (ok : Config (service fs) → Ask → Bool → Prop) :
    Config (service fs) → Ledger → Prop
  | start : Session ok (start fs) {}
  | exchange {c c' : Config (service fs)} {l l' : Ledger} {ask : Ask} {a : Fallible Reply}
      {lost : Bool} : Session ok c l → ok c ask lost → Exchange fmt ttl c l ask a lost c' l' →
      Session ok c' l'

/-- The lookups count of every inode is the number of entries that were delivered for it less those
that were forgotten, and the registered handles are those that the kernel has open. -/
structure Balanced (c : Config (service fs)) (l : Ledger) : Prop where
  lookups : ∀ i, c.state.table.count .lookups i + l.forgotten.count i = l.delivered.count i
  handles : ∀ x, c.state.handles.Registered x ↔ x ∈ l.opened

variable (fmt ttl) in
/-- The callback of a `readdirplus` can succeed after it has pushed a name with a zero byte. -/
def PushesNul (c : Config (service fs)) : Ask → Prop
  | .readdirplus ino size fh off caller => ∃ acc,
    Pushes fs c.threads.length c.state ino fh off
      ((DirBuffer.new size).sink (DirBuffer.takePlus fmt ttl)) caller (.ok ()) acc ∧
      ∃ e ∈ acc.offered, 0 ∈ e.name
  | .other _ _ => False

variable (fmt ttl) in
/-- Nothing can go wrong with a request in a configuration and the fate of its reply: no callback
can unwind after an entry was accepted, a reply that is lost cannot have an entry or a handle, other
than the entries of a listing, and a listing that is delivered cannot have a name that its buffer
skips. -/
def Recoverable (c : Config (service fs)) (ask : Ask) (lost : Bool) : Prop :=
  ¬ LatePanic c (ask.request fmt ttl) ∧ (lost = true → ¬ CanHand c (ask.request fmt ttl)) ∧
    (lost = false → ¬ PushesNul fmt ttl c ask)

/-- The kernel reads the entries of a listing from its reply. -/
theorem entries_decode {ids : List NodeId} {offered : List PlusEntry}
    (hfmt : fmt.Lawful EntryParam.attr (Writes (plusArg ttl) (offered.map PlusEntry.item)))
    (ino size fh off : ℕ) (caller : Caller) :
    ∃ bytes ds, readdirplusReply fmt ttl size (.ok (.retained ids offered)) = .buf bytes ∧
      fmt.decode bytes = some ds ∧ sentInodes ds =
        (Ask.readdirplus ino size fh off caller).entries fmt ttl (.ok (.retained ids offered)) := by
  obtain ⟨ds, hdecode, hds⟩ := decode_sent hfmt size
  exact ⟨_, ds, rfl, hdecode, hds⟩

/-! ## One exchange -/

section Exchange

variable {c c₁ c' : Config (service fs)} {l l' : Ledger} {ask : Ask} {req : Request}
  {a : Fallible Reply} {lost : Bool}

/-- The next number is registered for nothing. -/
lemma fresh_of_run (hr : Run anyAction (start fs) c) (k : HandleKind) :
    (c.state.handles.table k).lookup c.state.handles.nextFh = none := by
  obtain ⟨T, hinv⟩ := (holds_any hr).inv
  exact hinv.handles.table_fresh k

/-- Taking lookups back. -/
lemma Forgets.lookups {ids : List NodeId} (h : Forgets c ids c')
    (hr : Run anyAction (start fs) c) :
    Run anyAction (start fs) c' ∧ c'.state.handles = c.state.handles ∧
      ∀ i, c'.state.table.count .lookups i = c.state.table.count .lookups i - ids.count i := by
  induction h with
  | nil c => exact ⟨hr, rfl, fun _ => rfl⟩
  | @cons c c₁ c' id ids hserves _ ih =>
    obtain ⟨hr', hhandles, hcount⟩ := ih (run_serves hr hserves)
    obtain ⟨_, htable, hsame⟩ := serves_forget hserves
    refine ⟨hr', hhandles.trans hsame, ?_⟩
    intro i
    rw [hcount, htable, show c.state.table.forget id 1 = c.state.table.decr .lookups 1 id from rfl,
      count_decr, List.count_cons]
    by_cases hi : i = id
    · simp only [hi, true_and, if_true, beq_self_eq_true]
      omega
    · simp [hi, Ne.symm hi]

/-- A trampoline takes back all that was given, or nothing. -/
lemma retainedBy_cases (a : Fallible Reply) : retainedBy a = givenBy a ∨ retainedBy a = [] := by
  unfold retainedBy
  split
  · exact Or.inl rfl
  · exact Or.inr rfl

lemma count_retainedBy_le (a : Fallible Reply) (i : ℕ) :
    (retainedBy a).count i ≤ (givenBy a).count i := by
  rcases retainedBy_cases a with h | h
  · rw [h]
  · rw [h]
    exact Nat.zero_le _

/-- What was given is what is taken back, if it is so for every inode. -/
lemma givenBy_eq_iff (a : Fallible Reply) :
    givenBy a = retainedBy a ↔ ∀ i, (givenBy a).count i = (retainedBy a).count i := by
  refine ⟨fun h i => by rw [h], ?_⟩
  intro hcount
  rcases retainedBy_cases a with h | h
  · exact h.symm
  · rw [h] at hcount ⊢
    exact List.eq_nil_iff_forall_not_mem.mpr fun i => List.count_eq_zero.mp (hcount i)

/-- An honest kernel has what it takes back. -/
lemma Balanced.has (hbal : Balanced c l) (hon : l.Honest req) (i : ℕ) :
    req.forgets.count i ≤ c.state.table.count .lookups i := by
  cases req with
  | forget ino m =>
    have hle : l.forgotten.count ino + m ≤ l.delivered.count ino := hon
    have hcount := hbal.lookups ino
    change (Multiset.replicate m ino).count i ≤ _
    rw [Multiset.count_replicate]
    split
    · next heq =>
      subst heq
      omega
    · exact Nat.zero_le _
  | _ => exact Nat.zero_le _

variable (fmt ttl) in
/-- What keeps the balance in an exchange: a delivered reply has the entries for which it was given
lookups, and a lost one has nothing but what is taken back. -/
def Agrees (ask : Ask) (a : Fallible Reply) (lost : Bool) : Prop :=
  if lost then Returnable (ask.request fmt ttl) a else ask.entries fmt ttl a = givenBy a

/-- An exchange keeps the balance if and only if its reply agrees. -/
lemma Exchange.balanced_iff (h : Exchange fmt ttl c l ask a lost c' l')
    (hr : Run anyAction (start fs) c) (hbal : Balanced c l)
    (hlate : ¬ LatePanic c (ask.request fmt ttl)) :
    Balanced c' l' ↔ Agrees fmt ttl ask a lost := by
  cases h with
  | delivered hon hserves _ =>
    have hcount := lookups_serves hserves hr hlate (hbal.has hon)
    have hlookups : (∀ i, c'.state.table.count .lookups i +
        ((ask.request fmt ttl).forgets + l.forgotten).count i =
          (ask.entries fmt ttl a + l.delivered).count i) ↔ ask.entries fmt ttl a = givenBy a := by
      rw [Multiset.ext]
      refine forall_congr' fun i => ?_
      have hi := hcount i
      have hled := hbal.lookups i
      rw [Multiset.count_add, Multiset.count_add, Multiset.coe_count]
      omega
    refine ⟨fun hbal' => hlookups.mp hbal'.lookups,
      fun hagrees => ⟨hlookups.mpr hagrees, ?_⟩⟩
    intro x
    rw [registered_iff (fresh_of_run hr) (registers_serves hserves), hbal.handles]
    simp [Ledger.received, Ledger.issued]
  | @lost c₁ _ hon hserves _ hforgets =>
    have hcount := lookups_serves hserves hr hlate (hbal.has hon)
    obtain ⟨_, hhandles, hback⟩ := hforgets.lookups (run_serves hr hserves)
    have hlookups : (∀ i, c'.state.table.count .lookups i +
        ((ask.request fmt ttl).forgets + l.forgotten).count i = l.delivered.count i) ↔
          givenBy a = retainedBy a := by
      rw [givenBy_eq_iff]
      refine forall_congr' fun i => ?_
      have hi := hcount i
      have hled := hbal.lookups i
      have hhas := hbal.has hon i
      have hle := count_retainedBy_le a i
      rw [hback, Multiset.count_add]
      omega
    have hregistered : ∀ x, c'.state.handles.Registered x ↔
        x ∈ handed (ask.request fmt ttl) a ∨ x ∈ (l.issued (ask.request fmt ttl)).opened := by
      intro x
      rw [hhandles, registered_iff (fresh_of_run hr) (registers_serves hserves), hbal.handles]
      simp [Ledger.issued]
    constructor
    · intro hbal'
      refine ⟨hlookups.mp hbal'.lookups, ?_⟩
      by_contra hsome
      obtain ⟨⟨k, ino, fh⟩, hx⟩ := Option.ne_none_iff_exists'.mp hsome
      -- the number was fresh, so the kernel cannot have it open
      have hregs := registers_serves hserves
      unfold Registers at hregs
      rw [hx] at hregs
      have hopened := (hbal'.handles _).mp ((hregistered _).mpr (Or.inl hx))
      have hold := (hbal.handles _).mpr (Finset.mem_sdiff.mp hopened).1
      rw [hregs.1] at hold
      exact not_registered_next (fresh_of_run hr) k ino hold
    · rintro ⟨hgiven, hnone⟩
      refine ⟨hlookups.mpr hgiven, ?_⟩
      intro x
      rw [hregistered, hnone]
      simp

/-- A request that can hand something out is no `forget`. -/
lemma not_forget_of_canHand (h : CanHand c req) (ino m : ℕ) : req ≠ .forget ino m := by
  rintro rfl
  exact h

/-- A listing has exactly the entries that it has retained if no name is skipped. -/
lemma entries_eq_iff {ids : List NodeId} {offered : List PlusEntry} {ino size fh off : ℕ}
    {caller : Caller} (hexact : Accounting.Exact
      ((DirBuffer.new size).sink (DirBuffer.takePlus fmt ttl)) ⟨offered, ids⟩) :
    (Ask.readdirplus ino size fh off caller).entries fmt ttl (.ok (.retained ids offered)) = ids ↔
      ∀ e ∈ offered, 0 ∉ e.name := by
  unfold Accounting.Exact at hexact
  dsimp only at hexact
  dsimp only [Ask.entries]
  rw [filter_sent, hexact, map_filter_eq_iff, ← accepted_plain_iff fmt ttl size]
  simp

/-- A recoverable exchange agrees. -/
lemma Exchange.agrees (h : Exchange fmt ttl c l ask a lost c' l') (hr : Run anyAction (start fs) c)
    (hok : Recoverable fmt ttl c ask lost) : Agrees fmt ttl ask a lost := by
  obtain ⟨T, hinv⟩ := (holds_any hr).inv
  cases h with
  | delivered hon hserves _ =>
    change ask.entries fmt ttl a = givenBy a
    obtain ⟨s, s', hissue, halone, _⟩ := hserves
    cases ask with
    | readdirplus ino size fh off caller =>
      obtain rfl := Option.some.inj hissue
      obtain ⟨r, hlist, rfl⟩ := alone_reply.mp halone
      have hends := alone_iff_wp.mp (ensures_readdirplus hinv.wf ino fh off _ caller) r s' hlist
      cases r with
      | error e => rfl
      | ok l =>
        obtain ⟨_, hexact, hpushes⟩ := hends
        refine (entries_eq_iff hexact).mpr ?_
        intro e he hnul
        exact hok.2.2 rfl ⟨_, hpushes, e, he, hnul⟩
    | other req hlists =>
      have hnone := (halone.returns (returns_serve req)).2 hlists
      match a with
      | .ok (.retained ids _) =>
        have hids : ids = [] := hnone
        rw [hids]
        rfl
      | .ok (.entry _) | .ok (.created _ _ _) | .ok .unit | .ok (.value _) | .ok (.attr _)
      | .ok (.stats _) | .ok .negative | .ok (.opened _ _) | .ok (.listed _) | .error _ => rfl
  | lost hon hserves hsends _ =>
    change Returnable (ask.request fmt ttl) a
    by_contra hnot
    by_cases hforget : ∃ ino m, ask.request fmt ttl = .forget ino m
    · obtain ⟨ino, m, heq⟩ := hforget
      rw [heq] at hserves hnot
      obtain ⟨rfl, _⟩ := serves_forget hserves
      exact hnot ⟨rfl, rfl⟩
    · obtain ⟨s', halone, _⟩ :=
        alone_of_serves (fun ino m heq => hforget ⟨ino, m, heq⟩) hserves
      exact hok.2.1 rfl (canHand_of_alone halone hsends hnot)

/-- If every exchange keeps the balance, the request is recoverable. -/
lemma recoverable_of_balanced (hr : Run anyAction (start fs) c) (hbal : Balanced c l)
    (hkeep : ∀ a c' l', Exchange fmt ttl c l ask a lost c' l' → Balanced c' l') :
    Recoverable fmt ttl c ask lost := by
  obtain ⟨T, hinv⟩ := (holds_any hr).inv
  have hlate : ¬ LatePanic c (ask.request fmt ttl) := by
    intro hlate
    cases ask with
    | other req hlists =>
      cases req with
      | readdirplus => exact hlists trivial
      | _ => exact hlate
    | readdirplus ino size fh off caller =>
      obtain ⟨s', A, halone, hgranted, hA⟩ := PanicsLate.alone hinv.wf hlate
      have hrun : Alone (service fs) c.threads.length
          (serve fs (readdirplusRequest fmt ttl ino size fh caller off)) c.state
          (.error .panic) s' :=
        alone_reply.mpr ⟨.error .panic, halone, rfl⟩
      obtain ⟨c₁, hserves, htable⟩ := serves_of_alone (fun _ _ h => by cases h) hrun
      -- nothing is delivered, and the lookups of the accepted entries stay
      have hleft : ¬ Balanced c₁
          (l.issued (readdirplusRequest fmt ttl ino size fh caller off)) := by
        intro hbal'
        obtain ⟨id, A, rfl⟩ := List.exists_cons_of_ne_nil hA
        have hcount := hgranted.lookups id
        have hbefore := hbal.lookups id
        have hafter := hbal'.lookups id
        rw [htable, hcount, List.count_cons_self] at hafter
        change _ + (0 + l.forgotten).count id = l.delivered.count id at hafter
        rw [zero_add] at hafter
        omega
      cases lost with
      | true => exact hleft (hkeep _ _ _ (.lost trivial hserves trivial (.nil _)))
      | false =>
        have hbal' := hkeep _ _ _ (.delivered trivial hserves trivial)
        refine hleft ⟨?_, ?_⟩
        · intro i
          have hcount := hbal'.lookups i
          change _ = (0 + l.delivered).count i at hcount
          rwa [zero_add] at hcount
        · intro x
          rw [hbal'.handles]
          simp [Ledger.received, handed, Ask.request]
  refine ⟨hlate, ?_, ?_⟩
  · rintro rfl hhand
    have hforget := not_forget_of_canHand hhand
    obtain ⟨a, s', halone, hsends, hnot, hnone⟩ := hhand.alone
    obtain ⟨c₁, hserves, _⟩ := serves_of_alone hforget halone
    have hon : l.Honest (ask.request fmt ttl) := by
      cases hreq : ask.request fmt ttl with
      | forget ino m => exact absurd hreq (hforget ino m)
      | _ => trivial
    have hforgets : Forgets c₁ (retainedBy a) c₁ := by
      rw [hnone]
      exact .nil c₁
    have hlost := Exchange.lost hon hserves hsends hforgets
    exact hnot ((hlost.balanced_iff hr hbal hlate).mp (hkeep _ _ _ hlost))
  · rintro rfl hnul
    cases ask with
    | other req hlists => exact hnul
    | readdirplus ino size fh off caller =>
      obtain ⟨acc, hpushes, e, he, hzero⟩ := hnul
      obtain ⟨hexact, s', _, halone⟩ := hpushes.alone hinv.wf fun _ h => nomatch h
      have hrun : Alone (service fs) c.threads.length
          (serve fs (readdirplusRequest fmt ttl ino size fh caller off)) c.state
          (.ok (.retained acc.accepted acc.offered)) s' :=
        alone_reply.mpr ⟨.ok (acc.accepted, acc.offered), halone, rfl⟩
      obtain ⟨c₁, hserves, _⟩ := serves_of_alone (fun _ _ h => by cases h) hrun
      have hdelivered : Exchange fmt ttl c l (.readdirplus ino size fh off caller) _ false c₁ _ :=
        .delivered trivial hserves trivial
      have hagrees := (hdelivered.balanced_iff hr hbal hlate).mp (hkeep _ _ _ hdelivered)
      exact (entries_eq_iff hexact).mp hagrees e he hzero

end Exchange

lemma balanced_start : Balanced (start fs) {} where
  lookups := fun i => count_new (by decide) i
  handles := by
    intro x
    refine ⟨?_, fun hx => absurd hx (Finset.notMem_empty x)⟩
    rintro ⟨arc, harc, _⟩
    cases harc

/-- References follow delivered replies.  In every session of recoverable requests the runtime
agrees with the kernel after every exchange; and of the requests that may come next, with a reply
that is delivered or lost, exactly the recoverable ones keep it so, however they are served. -/
theorem references_follow_replies {c : Config (service fs)} {l : Ledger}
    (h : Session fmt ttl (Recoverable fmt ttl) c l) :
    Balanced c l ∧ ∀ (ask : Ask) (lost : Bool),
      (∀ a c' l', Exchange fmt ttl c l ask a lost c' l' → Balanced c' l') ↔
        Recoverable fmt ttl c ask lost := by
  have hboth : Run anyAction (start fs) c ∧ Balanced c l := by
    induction h with
    | start => exact ⟨.refl, balanced_start⟩
    | @exchange c c' l l' ask a lost _ hok hex ih =>
      obtain ⟨hr, hbal⟩ := ih
      refine ⟨?_, (hex.balanced_iff hr hbal hok.1).mpr (hex.agrees hr hok)⟩
      cases hex with
      | delivered _ hserves _ => exact run_serves hr hserves
      | lost _ hserves _ hforgets => exact (hforgets.lookups (run_serves hr hserves)).1
  obtain ⟨hr, hbal⟩ := hboth
  refine ⟨hbal, fun ask lost => ⟨recoverable_of_balanced hr hbal, ?_⟩⟩
  intro hok a c' l' hex
  exact (hex.balanced_iff hr hbal hok.1).mpr (hex.agrees hr hok)

/-- A callback that has pushed entries ends with what it can return. -/
lemma Pushes.returns {s : RtState fs.toFsSig} {ino fh offset : ℕ} {sink : Sink PlusEntry}
    {caller : Caller} {r : Fallible Unit} {acc : Accounting} {P : Fallible Unit → Prop}
    (h : Pushes fs n s ino fh offset sink caller r acc)
    (hp : ∀ node parent payload,
      (fs.readdirplus node ino parent payload offset caller).Returns P) : P r := by
  obtain ⟨node, parent, record, payload, s₁, s₂, s₃, ch, _, _, _, halone⟩ := h
  have hreturns := (hp node.record.payload parent payload).handle (h := accountingSink sink) {}
  exact halone.returns hreturns

/-- Pushing entries ends well. -/
lemma Sample.returns_push {D : Type} (todo : List (Item D)) :
    (Sample.push todo).Returns fun r => r = .ok () := by
  induction todo with
  | nil => rfl
  | cons e es ih =>
    intro accepted
    cases accepted with
    | true => exact ih
    | false => rfl

private def lookA : Request := .lookup NodeId.ROOT [97] {}

private def openShelf : Request := .openNode .dir NodeId.ROOT 0 {}

private def listPlus : Ask := .readdirplus NodeId.ROOT 1000 1 0 {}

private def looked : Config (service Sample.shelf) := (start Sample.shelf).served none 5 lookA

private def opened : Config (service Sample.shelf) := looked.served none 5 openShelf

private def listed : Config (service Sample.shelf) :=
  opened.served none 16 (listPlus.request Sample.direntsPlus ⟨1, 0⟩)

/-- The configuration after `m` runs of the loop of `readdirplus_shim`. -/
private def undoing : ℕ → Config (service Sample.shelf)
  | 0 => listed
  | m + 1 => (undoing m).served none 1 (.forget NodeId.ROOT 1)

private lemma recoverable_listPlus (c : Config (service Sample.shelf)) :
    Recoverable Sample.direntsPlus ⟨1, 0⟩ c listPlus true := by
  refine ⟨?_, fun _ hhand => hhand, fun h => nomatch h⟩
  rintro ⟨acc, hpushes, _⟩
  have hok := hpushes.returns fun _ _ _ => Sample.returns_push _
  cases hok

private def entryA : Entry := ⟨⟨2, 0, { size := 1 }⟩, some (1, 0), 1⟩

private lemma sends_entryA : Sends (.ok (.entry entryA)) := by
  change entryA.reply.attr.Convertible
  decide

set_option maxRecDepth 100000 in
/-- A listing that is lost is taken back, and an entry and a handle that were delivered stay. -/
theorem references_follow_replies_shelf : ∃ (c : Config (service Sample.shelf)) (l : Ledger),
    l.delivered = {2} ∧ l.opened = {(.dir, 1, 1)} ∧ Balanced c l ∧
    ∀ (ask : Ask) (lost : Bool),
      (∀ a c' l', Exchange Sample.direntsPlus ⟨1, 0⟩ c l ask a lost c' l' →
        Balanced c' l') ↔
        Recoverable Sample.direntsPlus ⟨1, 0⟩ c ask lost := by
  have hlook : Serves (start Sample.shelf) lookA (.ok (.entry entryA)) looked := serves_served rfl
  have hopen : Serves looked openShelf (.ok (.opened 1 {})) opened := serves_served rfl
  have hlist : Serves opened (listPlus.request Sample.direntsPlus ⟨1, 0⟩)
      (.ok (.retained [1, 1, 1] Sample.shelfEntries)) listed := serves_served rfl
  have hforget : ∀ m < 3,
      Serves (undoing m) (.forget NodeId.ROOT 1) (.ok .unit) (undoing (m + 1)) := by
    intro m hm
    interval_cases m
    · exact serves_served rfl
    · exact serves_served rfl
    · exact serves_served rfl
  have hforgets : Forgets listed [1, 1, 1] (undoing 3) :=
    .cons (hforget 0 (by decide))
      (.cons (hforget 1 (by decide)) (.cons (hforget 2 (by decide)) (.nil _)))
  have hplain : ∀ (c : Config (service Sample.shelf)) (req : Request) (h : ¬ req.Lists),
      ¬ LatePanic c req → Recoverable Sample.direntsPlus ⟨1, 0⟩ c (.other req h) false :=
    fun _ _ _ hlate => ⟨hlate, fun h => (nomatch h), fun _ hnul => hnul⟩
  have hstart : Session Sample.direntsPlus ⟨1, 0⟩ (Recoverable Sample.direntsPlus ⟨1, 0⟩)
      (start Sample.shelf) {} := .start
  have hfirst := hstart.exchange (hplain _ lookA id id) (.delivered trivial hlook sends_entryA)
  have hsecond := hfirst.exchange (hplain _ openShelf id id) (.delivered trivial hopen trivial)
  have hthird := hsecond.exchange (recoverable_listPlus opened)
    (.lost trivial hlist trivial hforgets)
  exact ⟨_, _, by decide, by decide, references_follow_replies hthird⟩

set_option maxRecDepth 100000 in
/-- A listing that is delivered with a name that its buffer skips is not recoverable. -/
example : ¬ Recoverable Sample.direntsPlus ⟨1, 0⟩ opened listPlus false := by
  intro hok
  have hr : Run anyAction (start Sample.shelf) opened :=
    run_serves (run_serves .refl (a := .ok (.entry entryA)) (serves_served rfl))
      (a := .ok (.opened 1 {})) (serves_served rfl)
  have hlist : Serves opened (listPlus.request Sample.direntsPlus ⟨1, 0⟩)
      (.ok (.retained [1, 1, 1] Sample.shelfEntries)) listed := serves_served rfl
  have hdelivered : Exchange Sample.direntsPlus ⟨1, 0⟩ opened {} listPlus _ false listed _ :=
    .delivered trivial hlist trivial
  have hagrees := hdelivered.agrees hr hok
  change listPlus.entries Sample.direntsPlus ⟨1, 0⟩ _ = _ at hagrees
  revert hagrees
  decide +kernel

/-- A lookup whose reply is lost stays counted. -/
theorem lost_lookup_stays_counted :
    ¬ ∀ (fs : NodeFs) (fmt : Format EntryParam) (ttl : Duration) (c : Config (service fs))
      (l : Ledger), Session fmt ttl (fun _ _ _ => True) c l → Balanced c l := by
  intro hclaim
  have hserves : Serves (start Sample.shelf) lookA (.ok (.entry entryA)) looked := serves_served rfl
  have hlost : Exchange Sample.direntsPlus ⟨1, 0⟩ (start Sample.shelf) {} (.other lookA id)
      (.ok (.entry entryA)) true looked _ := .lost trivial hserves sends_entryA (.nil _)
  have hbal := hclaim Sample.shelf _ _ _ _ (.exchange .start trivial hlost)
  have hcount := hbal.lookups 2
  revert hcount
  decide +kernel

end TypedFuse
