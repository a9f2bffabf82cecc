import TypedFuse.Core.ErrorReply
import TypedFuse.Session.DirBuffer

/-!
# Listing a directory page by page

`readdir_shim` and `readdirplus_shim` of `session.rs` answer one page of a directory each; the
kernel asks for the next page behind the last record it has read, until a reply is empty.  Here is
what one page holds, given that the callback follows its contract (`Emits`) and that libfuse writes
what it should (`Format.Lawful`).

A sink of the session can panic, and that unwinds through the callback which pushed the entry;
`NodeFs.mounted` is the filesystem with this taken into account.
-/

namespace TypedFuse

open Conc Conc.Service NodeTable TypedFuse.Runtime

variable {fs : NodeFs} {n : ℕ} {α D τ : Type} {must : Prop}

/-! ## The contract of a directory callback -/

/-- What a callback that follows its contract may do next, in a state of the runtime, with the
entries that it has yet to push while nothing was refused.  Its own steps do not wait, an entry
that it pushes is the next one and `Ready`, and after a refusal it pushes nothing. -/
def emitSpec (n : ℕ) (Ready : Item D → RtState fs.toFsSig → Prop)
    (Took : Item D → RtState fs.toFsSig → RtState fs.toFsSig → Prop) :
    (i : DirInstr fs.toFsSig D) → RtState fs.toFsSig × List (Item D) × Bool →
      (i.Resp → RtState fs.toFsSig × List (Item D) × Bool → Prop) → Prop
  | .fs i, (s, rest), K =>
    (∃ ch r s', (service fs).exec n (.fs i) ch s = some (r, s')) ∧
      ∀ ch r s', (service fs).exec n (.fs i) ch s = some (r, s') → K r (s', rest)
  | .add name id data nextOffset, (s, todo, accepting), K =>
    accepting = true ∧ ∃ rest, todo = ⟨name, id, data, nextOffset⟩ :: rest ∧
      Ready ⟨name, id, data, nextOffset⟩ s ∧ K false (s, rest, false) ∧
      ∀ s', Took ⟨name, id, data, nextOffset⟩ s s' → K true (s', rest, true)

/-- From the state `s`, the callback pushes the entries `todo` in order, stops at the first one that
is refused, and ends with `Q`. -/
def EmitsTo (n : ℕ) (Ready : Item D → RtState fs.toFsSig → Prop)
    (Took : Item D → RtState fs.toFsSig → RtState fs.toFsSig → Prop)
    (Q : Fallible Unit → RtState fs.toFsSig × List (Item D) × Bool → Prop)
    (todo : List (Item D)) (p : DirProg fs.toFsSig D (Fallible Unit)) (s : RtState fs.toFsSig) :
    Prop :=
  p.wp (emitSpec n Ready Took) Q (s, todo, true)

/-- A callback succeeded, after a refusal or with nothing left to push. -/
def Pushed (r : Fallible Unit) (g : RtState fs.toFsSig × List (Item D) × Bool) : Prop :=
  r = .ok () ∧ (g.2.2 = true → g.2.1 = [])

/-- From the state `s`, the callback pushes the entries `todo` in order, stops at the first one that
is refused, and succeeds. -/
def Emits (n : ℕ) (Ready : Item D → RtState fs.toFsSig → Prop)
    (Took : Item D → RtState fs.toFsSig → RtState fs.toFsSig → Prop) (todo : List (Item D))
    (p : DirProg fs.toFsSig D (Fallible Unit)) (s : RtState fs.toFsSig) : Prop :=
  EmitsTo n Ready Took Pushed todo p s

/-- A callback that follows its contract, run with a sink that keeps an invariant `I`, ends with the
invariant. -/
lemma yields_emits {Ready : Item D → RtState fs.toFsSig → Prop}
    {Took : Item D → RtState fs.toFsSig → RtState fs.toFsSig → Prop}
    {Q : Fallible Unit → RtState fs.toFsSig × List (Item D) × Bool → Prop}
    {h : (i : DirInstr fs.toFsSig D) → τ → RtProg fs.toFsSig (i.Resp × τ)}
    {I : τ → RtState fs.toFsSig → List (Item D) → Bool → Prop}
    (hfs : ∀ i acc, h (.fs i) acc = sect (.fs i) >>= fun r => .ret (r, acc))
    (hkeep : ∀ i ch r acc s s' rest accepting, (service fs).exec n (.fs i) ch s = some (r, s') →
      I acc s rest accepting → I acc s' rest accepting)
    (hadd : ∀ e acc s rest, Ready e s → I acc s (e :: rest) true →
      (service fs).Yields must n s (h (.add e.name e.id e.data e.nextOffset) acc) fun r s' =>
        I r.2 s' rest r.1 ∧ (r.1 = true → Took e s s') ∧ (r.1 = false → s' = s))
    (p : DirProg fs.toFsSig D (Fallible Unit)) {acc : τ} {s : RtState fs.toFsSig}
    {rest : List (Item D)} {accepting : Bool}
    (hp : p.wp (emitSpec n Ready Took) Q (s, rest, accepting)) (hI : I acc s rest accepting) :
    (service fs).Yields must n s (p.handle h acc) fun r s' =>
      ∃ rest accepting, Q r.1 (s', rest, accepting) ∧ I r.2 s' rest accepting := by
  induction p generalizing acc s rest accepting with
  | ret a => exact ⟨rest, accepting, hp, hI⟩
  | act i k ih =>
    cases i with
    | fs i =>
      change (service fs).Yields must n s
        (h (.fs i) acc >>= fun rs => (k rs.1).handle h rs.2) _
      rw [hfs]
      refine Yields.step (fun _ => hp.1) ?_
      intro ch r s' he
      exact ih r (hp.2 ch r s' he) (hkeep i ch r acc s s' rest accepting he hI)
    | add name id data nextOffset =>
      obtain ⟨rfl, rest', rfl, hready, hfalse, htrue⟩ := hp
      refine Yields.bind (hadd ⟨name, id, data, nextOffset⟩ acc s rest' hready hI) ?_
      rintro ⟨b, acc'⟩ s' ⟨hI', htook, hsame⟩
      cases b with
      | false =>
        obtain rfl : s' = s := hsame rfl
        exact ih false hfalse hI'
      | true => exact ih true (htrue s' (htook rfl)) hI'

/-! ## Sinks that panic -/

/-- A callback of `readdirplus` with the sink of a session.  A pushed entry of a live node whose
times cannot be converted makes the sink panic, and the callback unwinds. -/
def unwinding {σ : FsSig} :
    DirProg σ NodeAttr (Fallible Unit) → DirProg σ NodeAttr (Fallible Unit)
  | .ret r => .ret r
  | .act (.fs i) k => .act (.fs i) fun r => unwinding (k r)
  | .act (.add name id attr nextOffset) k =>
    if 0 ∈ name ∨ attr.Convertible then
      .act (.add name id attr nextOffset) fun r => unwinding (k r)
    else
      .act (.fs (.contains id)) fun (live : Bool) =>
        if live then .ret (.error .panic) else unwinding (k false)

/-- A filesystem as a session runs it. -/
abbrev NodeFs.mounted (fs : NodeFs) : NodeFs :=
  { fs with
    readdirplus := fun node id parent handle offset caller =>
      unwinding (fs.readdirplus node id parent handle offset caller) }

/-- The node of an entry is live. -/
def LiveItem (e : Item NodeAttr) (s : RtState fs.toFsSig) : Prop :=
  ∃ sl, s.table.slot e.id = some sl

/-- The times of an entry can be converted, if it is written at all. -/
def Item.Convertible (e : Item NodeAttr) : Prop :=
  e.writable → e.data.Convertible

/-- A callback pushed all that it should, or the sink panicked at one of the entries. -/
def PushedOr (todo : List (Item NodeAttr)) (r : Fallible Unit)
    (g : RtState fs.toFsSig × List (Item NodeAttr) × Bool) : Prop :=
  Pushed r g ∨ (r = .error .panic ∧ ∃ e ∈ todo, ¬ e.Convertible)

/-- A callback that follows its contract still does under a session, up to the first entry at which
the sink panics. -/
lemma emitsTo_unwinding {Took : Item NodeAttr → RtState fs.toFsSig →
    RtState fs.toFsSig → Prop}
    {todo : List (Item NodeAttr)} (p : DirProg fs.toFsSig NodeAttr (Fallible Unit))
    {s : RtState fs.toFsSig} {rest : List (Item NodeAttr)} {accepting : Bool}
    (hrest : ∀ e ∈ rest, e ∈ todo)
    (hp : p.wp (emitSpec n LiveItem Took) Pushed (s, rest, accepting)) :
    (unwinding p).wp (emitSpec n (fun e s => LiveItem e s ∧ e.Convertible) Took) (PushedOr todo)
      (s, rest, accepting) := by
  induction p generalizing s rest accepting with
  | ret r => exact Or.inl hp
  | act i k ih =>
    cases i with
    | fs i => exact ⟨hp.1, fun ch r s' he => ih r hrest (hp.2 ch r s' he)⟩
    | add name id attr nextOffset =>
      obtain ⟨rfl, rest', rfl, hlive, hfalse, htrue⟩ := hp
      have hrest' : ∀ e ∈ rest', e ∈ todo := fun e he => hrest e (List.mem_cons_of_mem _ he)
      rw [unwinding]
      split
      · next hfine =>
        have hconvertible : Item.Convertible ⟨name, id, attr, nextOffset⟩ := by
          intro hw
          exact hfine.resolve_left (of_decide_eq_true hw)
        exact ⟨rfl, rest', rfl, ⟨hlive, hconvertible⟩, ih false hrest' hfalse,
          fun s' htook => ih true hrest' (htrue s' htook)⟩
      · next hbad =>
        obtain ⟨sl, hslot⟩ := hlive
        have hcontains : ∀ ch, (service fs).exec n (.fs (.contains id)) ch s =
            some (true, s) := by
          intro ch
          have hlive : s.table.contains id = true := by
            unfold NodeTable.contains
            rw [hslot]
            rfl
          exact congrArg (fun live => some (live, s)) hlive
        refine ⟨⟨none, _, _, hcontains none⟩, ?_⟩
        intro ch r s' he
        obtain ⟨rfl, rfl⟩ := Prod.mk.inj (Option.some.inj ((hcontains ch).symm.trans he))
        refine Or.inr ⟨rfl, _, hrest _ List.mem_cons_self, ?_⟩
        intro hconvertible
        refine hbad (or_iff_not_imp_left.mpr fun hnul => hconvertible ?_)
        exact decide_eq_true hnul

/-! ## An open directory -/

/-- The directory `ino` is live and `fh` is a handle for it. -/
structure OpenDir (s : RtState fs.toFsSig) (ino fh : ℕ) : Prop where
  live : ∃ sl, s.table.slot ino = some sl
  registered : (s.handles.table .dir).lookup fh = some ⟨fh, ino⟩
  record : ∃ cell, (s.handles.cells .dir).lookup fh = some cell ∧ cell.closing = false ∧
    cell.payload.isSome = true

/-- A registered handle can be used, in every reachable configuration. -/
lemma openDir_of_run {c : Config (service fs)} (hr : Run anyAction (start fs) c) {ino fh : ℕ}
    {arc : HandleArc} (hreg : (c.state.handles.table .dir).lookup fh = some arc)
    (hnode : arc.node = ino) : OpenDir c.state ino fh := by
  obtain ⟨T, hinv⟩ := (holds_any hr).inv
  have hinv' : Inv Env.any c.state (view T) := hinv
  have haddr := hinv'.handles.table .dir fh arc hreg
  obtain ⟨cell, hcell, hok⟩ := hinv'.handles.cell_of_table hreg
  have htable : (shares c.state.handles c.state.hist.released (view T).owners .dir fh).table =
      1 := by
    simp only [shares, hreg, Option.isSome_some, if_true]
  have hone := hok.one
  refine ⟨?_, ?_, cell, hcell, ?_, ?_⟩
  · have hregistered : 0 < c.state.handles.registered ino := by
      have hpos := BTreeMap.countWhere_pos hreg (p := fun _ arc => arc.node = ino)
        (decide_eq_true hnode)
      unfold Handles.registered
      omega
    have hcount := hinv'.opens.count ino
    exact slot_of_count_pos (c := .opens) (by omega)
  · rw [hreg, ← haddr, ← hnode]
  · rw [Bool.eq_false_iff]
    intro hclosing
    have hpos := hok.closing.mp hclosing
    omega
  · exact hok.payload.mpr (by omega)

/-- The counters that a listing adds to are not at their limits. -/
structure Room (s : RtState fs.toFsSig) (ino fh : ℕ) : Prop where
  leases : s.table.count .leases ino + 1 < 2 ^ 32
  active : ∀ cell, (s.handles.cells .dir).lookup fh = some cell → cell.active + 1 < 2 ^ 32

/-- The callback of a listing is entered in the state `s'`: the node and the handle were leased. -/
def Enters (fs : NodeFs) (n : ℕ) (s : RtState fs.toFsSig) (ino fh : ℕ) (node : NodeRef fs.Node)
    (parent : NodeId) (payload : fs.Payload .dir) (s' : RtState fs.toFsSig) : Prop :=
  ∃ ch s₁ record, (service fs).exec n (.node ino) ch s = some (some node, s₁) ∧
    (s₁.table.slot ino).map Slot.parent = some parent ∧
    Reaches fs n .dir ino fh s₁ record payload s'

/-- A live node is leased and stays live. -/
lemma node_live {s s' : RtState fs.toFsSig} {ino : ℕ} {ch : Option fs.Choice}
    {r : Option (NodeRef fs.Node)} (hlive : ∃ sl, s.table.slot ino = some sl)
    (he : (service fs).exec n (.node ino) ch s = some (r, s')) :
    ∃ node, r = some node ∧ s'.handles = s.handles ∧ ∃ sl, s'.table.slot ino = some sl := by
  obtain ⟨⟨o, t⟩, hget, heq⟩ := Option.map_eq_some_iff.mp he
  obtain ⟨rfl, rfl⟩ := Prod.mk.inj heq
  obtain ⟨⟨o', t'⟩, hinc, heq'⟩ := Option.map_eq_some_iff.mp hget
  obtain ⟨rfl, rfl⟩ := Prod.mk.inj heq'
  obtain ⟨sl, hsl⟩ := hlive
  rcases incr_cases hinc with ⟨_, hdead, _⟩ | ⟨sl', rfl, _, rfl⟩
  · rw [hsl] at hdead
    cases hdead
  · refine ⟨⟨ino, sl'.record⟩, rfl, rfl, sl'.setCounter (sl'.counter .leases + 1)
      .leases, ?_⟩
    change (NodeTable.set s.table ino _).slot ino = _
    rw [slot_set, if_pos rfl]

/-- A live node can be leased. -/
lemma exec_node {s : RtState fs.toFsSig} {ino : ℕ} (hlive : ∃ sl, s.table.slot ino = some sl)
    (hroom : s.table.count .leases ino + 1 < 2 ^ 32) :
    ∃ ch r s', (service fs).exec n (.node ino) ch s = some (r, s') := by
  obtain ⟨sl, hsl⟩ := hlive
  rw [count_of_slot hsl] at hroom
  have hinc : s.table.incr .leases ino =
      some (some sl, s.table.set ino (sl.setCounter (sl.counter .leases + 1) .leases)) := by
    unfold NodeTable.incr
    rw [hsl]
    exact if_pos hroom
  have hget : s.table.get ino = some _ := Option.map_eq_some_iff.mpr ⟨_, hinc, rfl⟩
  exact ⟨none, _, _, Option.map_eq_some_iff.mpr ⟨_, hget, rfl⟩⟩

/-- The handle of an open directory is found. -/
lemma exec_findHandle {s : RtState fs.toFsSig} {fh : ℕ} (arc : HandleArc)
    {cell : HandleCell (fs.Payload .dir)} (hreg : (s.handles.table .dir).lookup fh = some arc)
    (hcell : (s.handles.cells .dir).lookup arc.addr = some cell) (ch : Option fs.Choice) :
    (service fs).exec n (.findHandle .dir fh) ch s = some (some arc, { s with
      handles := s.handles.setCell .dir arc.addr { cell with arcs := cell.arcs + 1 } }) := by
  have hfind : s.handles.find .dir fh = some (some arc,
      s.handles.setCell .dir arc.addr { cell with arcs := cell.arcs + 1 }) := by
    unfold Handles.find
    simp only [hreg, hcell]
  exact Option.map_eq_some_iff.mpr ⟨_, hfind, rfl⟩

/-- A record that is not closing is leased, if its counter is not at its limit. -/
lemma Handles.acquire_of_cell {P : HandleKind → Type} {hs : Handles P} {k : HandleKind} {a : ℕ}
    {cell : HandleCell (P k)} (hcell : (hs.cells k).lookup a = some cell)
    (hclosing : cell.closing = false) :
    hs.acquire k a = if cell.active + 1 < 2 ^ 32 then
      some (true, hs.setCell k a { cell with active := cell.active + 1, arcs := cell.arcs + 1 })
    else none := by
  unfold Handles.acquire
  rw [hcell]
  dsimp only
  rw [hclosing, if_neg Bool.false_ne_true]

/-- Leasing a record that is not closing. -/
lemma exec_acquire {s : RtState fs.toFsSig} (arc : HandleArc)
    {cell : HandleCell (fs.Payload .dir)}
    (hcell : (s.handles.cells .dir).lookup arc.addr = some cell) (hclosing : cell.closing = false) :
    (cell.active + 1 < 2 ^ 32 →
      ∃ ch r s', (service fs).exec n (.acquire .dir arc) ch s = some (r, s')) ∧
      ∀ ch (r : Bool) s', (service fs).exec n (.acquire .dir arc) ch s = some (r, s') →
        r = true ∧ s'.handles = s.handles.setCell .dir arc.addr
          { cell with active := cell.active + 1, arcs := cell.arcs + 1 } := by
  have hacquire := Handles.acquire_of_cell hcell hclosing
  constructor
  · intro hroom
    rw [if_pos hroom] at hacquire
    exact ⟨none, _, _, Option.map_eq_some_iff.mpr ⟨_, hacquire, rfl⟩⟩
  · intro ch r s' he
    obtain ⟨⟨granted, hs⟩, hgranted, heq⟩ := Option.map_eq_some_iff.mp he
    obtain ⟨rfl, rfl⟩ := Prod.mk.inj heq
    rw [hacquire] at hgranted
    split at hgranted
    · obtain ⟨rfl, rfl⟩ := Prod.mk.inj (Option.some.inj hgranted)
      exact ⟨rfl, rfl⟩
    · cases hgranted

/-- An `Arc` of a record is dropped while there are others. -/
lemma exec_dropArc {s : RtState fs.toFsSig} (arc : HandleArc) {cell : HandleCell (fs.Payload .dir)}
    (hcell : (s.handles.cells .dir).lookup arc.addr = some cell) (harcs : 2 ≤ cell.arcs)
    (ch : Option fs.Choice) :
    (service fs).exec n (.dropArc .dir arc) ch s = some ((), { s with
      handles := s.handles.setCell .dir arc.addr { cell with arcs := cell.arcs - 1 } }) := by
  have hdrop : s.handles.dropArc .dir arc.addr =
      some (s.handles.setCell .dir arc.addr { cell with arcs := cell.arcs - 1 }) := by
    unfold Handles.dropArc
    rw [hcell, Option.map_some, if_neg (by omega)]
  exact Option.map_eq_some_iff.mpr ⟨_, hdrop, rfl⟩

/-- The scope of a handle that is registered and not closing. -/
lemma yields_withHandle {s : RtState fs.toFsSig} {ino fh : ℕ}
    {cell : HandleCell (fs.Payload .dir)}
    (hreg : (s.handles.table .dir).lookup fh = some ⟨fh, ino⟩)
    (hcell : (s.handles.cells .dir).lookup fh = some cell) (hclosing : cell.closing = false)
    (hpayload : cell.payload.isSome = true) (hroom : must → cell.active + 1 < 2 ^ 32)
    {body : fs.Payload .dir → RtProg fs.toFsSig (Fallible α)} {P : Fallible α → Prop}
    (hbody : ∀ record payload s₁, Reaches fs n .dir ino fh s record payload s₁ →
      (service fs).Yields must n s₁ (body payload) fun r s' => P r ∧
      s'.handles = s₁.handles) :
    (service fs).Yields must n s (withHandle .dir ino fh body)
      fun r s' => P r ∧ s'.handles.table = s.handles.table := by
  have hfind := fun ch => exec_findHandle (n := n) (s := s) ⟨fh, ino⟩ hreg hcell ch
  refine Yields.step (fun _ => ⟨none, _, _, hfind none⟩) ?_
  intro ch₁ record s₁ he₁
  obtain ⟨rfl, hs₁⟩ := Prod.mk.inj (Option.some.inj ((hfind ch₁).symm.trans he₁))
  have hcell₁ : (s₁.handles.cells .dir).lookup fh =
      some { cell with arcs := cell.arcs + 1 } := by
    rw [← hs₁]
    exact Handles.lookup_setCell _ _ _ _
  have htable₁ : s₁.handles.table = s.handles.table := by
    rw [← hs₁]
    rfl
  obtain ⟨hgo, hacquired⟩ := exec_acquire (n := n) ⟨fh, ino⟩ hcell₁ hclosing
  refine Yields.ite rfl (Yields.step (fun hm => hgo (hroom hm)) ?_)
  intro ch₂ granted s₂ he₂
  obtain ⟨rfl, hh₂⟩ := hacquired ch₂ granted s₂ he₂
  have hcell₂ : (s₂.handles.cells .dir).lookup fh =
      some { cell with active := cell.active + 1, arcs := cell.arcs + 1 + 1 } := by
    rw [hh₂]
    exact Handles.lookup_setCell _ _ _ _
  have hdrop := fun ch => exec_dropArc (n := n) ⟨fh, ino⟩ hcell₂ (by simp) ch
  refine Yields.ite rfl (Yields.step (fun _ => ⟨none, _, _, hdrop none⟩) ?_)
  intro ch₃ _ s₃ he₃
  have hs₃ := (Prod.mk.inj (Option.some.inj ((hdrop ch₃).symm.trans he₃))).2
  have hcell₃ : (s₃.handles.cells .dir).lookup fh =
      some { cell with active := cell.active + 1, arcs := cell.arcs + 1 + 1 - 1 } := by
    rw [← hs₃]
    exact Handles.lookup_setCell _ _ _ _
  have htable₃ : s₃.handles.table = s.handles.table := by
    rw [← hs₃]
    change s₂.handles.table = _
    rw [hh₂]
    exact htable₁
  obtain ⟨payload, hpayload⟩ := Option.isSome_iff_exists.mp hpayload
  have hderef : ∀ ch, (service fs).exec n (.deref .dir ⟨fh, ino⟩) ch s₃ =
      some (payload, s₃) := by
    intro ch
    refine Option.map_eq_some_iff.mpr ⟨payload, ?_, rfl⟩
    unfold Handles.deref
    rw [hcell₃]
    exact hpayload
  refine Yields.step (fun _ => ⟨none, _, _, hderef none⟩) ?_
  intro ch₄ payload' s₄ he₄
  obtain ⟨rfl, rfl⟩ := Prod.mk.inj (Option.some.inj ((hderef ch₄).symm.trans he₄))
  refine Yields.bind (hbody ⟨fh, ino⟩ payload s₃ ⟨he₁, rfl, he₂, he₃, he₄⟩) ?_
  rintro r s₅ ⟨hP, hh₅⟩
  -- the lease and its `Arc` are given back
  have hrecord : ((s₅.handles.cells .dir).lookup (HandleArc.addr ⟨fh, ino⟩)).isSome =
      true := by
    rw [hh₅]
    exact congrArg Option.isSome hcell₃
  obtain ⟨s₆, s₇, hs₆, hs₇⟩ := exec_dropLease (n := n) hrecord
  refine Yields.step (fun _ => ⟨none, _, _, hs₆⟩) ?_
  intro ch₆ _ s₆' he₆
  obtain ⟨_, rfl⟩ := Prod.mk.inj (Option.some.inj (hs₆.symm.trans he₆))
  refine Yields.step (fun _ => ⟨none, _, _, hs₇⟩) ?_
  intro ch₇ _ s₇' he₇
  obtain ⟨_, rfl⟩ := Prod.mk.inj (Option.some.inj (hs₇.symm.trans he₇))
  have htable₆ := sameTable_exec (i := .dropLease .dir ⟨fh, ino⟩) (fun _ _ _ h => nomatch h)
    (fun _ _ _ h => nomatch h) hs₆
  have htable₇ := sameTable_exec (i := .dropArc .dir ⟨fh, ino⟩) (fun _ _ _ h => nomatch h)
    (fun _ _ _ h => nomatch h) hs₇
  exact ⟨hP, by rw [htable₇.table, htable₆.table, hh₅, htable₃]⟩

/-- The scopes of a listing: in an open directory, the body is entered, and the result is its
result. -/
lemma yields_scopes {s : RtState fs.toFsSig} {ino fh : ℕ} (hopen : OpenDir s ino fh)
    (hroom : must → Room s ino fh)
    {body : NodeRef fs.Node → NodeId → fs.Payload .dir → RtProg fs.toFsSig (Fallible α)}
    {P : Fallible α → Prop}
    (hbody : ∀ node parent payload s₁, Enters fs n s ino fh node parent payload s₁ →
      (service fs).Yields must n s₁ (body node parent payload) fun r s' =>
        P r ∧ s'.handles = s₁.handles) :
    (service fs).Yields must n s
      (withNode ino fun node => do
        match ← sect (.parentOf ino) with
        | none => return fail .ENOENT
        | some parent => withHandle .dir ino fh fun handle => body node parent handle)
      fun r s' => P r ∧ s'.handles.table = s.handles.table := by
  obtain ⟨hlive, hreg, cell, hcell, hclosing, hpayload⟩ := hopen
  refine Yields.step (fun hm => exec_node hlive (hroom hm).leases) ?_
  intro ch₁ r₁ s₁ he₁
  obtain ⟨node, rfl, hh₁, sl, hsl⟩ := node_live hlive he₁
  have hparent : (service fs).exec n (.parentOf ino) none s₁ =
      some ((s₁.table.slot ino).map Slot.parent, s₁) := rfl
  -- the rest of the function, up to the drop of the node
  have hrest : (service fs).Yields must n s₁ (do
      match ← sect (.parentOf ino) with
      | none => return fail .ENOENT
      | some parent => withHandle .dir ino fh fun handle => body node parent handle)
      fun r s' => P r ∧ s'.handles.table = s.handles.table := by
    refine Yields.step (fun _ => ⟨none, _, _, hparent⟩) ?_
    intro ch₂ parent s₂ he₂
    obtain ⟨rfl, rfl⟩ := Prod.mk.inj (Option.some.inj he₂)
    rw [hsl]
    refine Yields.mono (yields_withHandle (P := P) (hh₁ ▸ hreg) (hh₁ ▸ hcell)
      hclosing hpayload
      (fun hm => (hroom hm).active cell hcell) ?_) ?_
    · intro record payload s₃ hreach
      exact hbody node sl.parent payload s₃ ⟨ch₁, s₁, record,
        he₁, by rw [hsl]; rfl, hreach⟩
    · rintro r s' ⟨hP, htable⟩
      exact ⟨hP, by rw [htable, hh₁]⟩
  refine Yields.bind hrest ?_
  rintro r s₂ ⟨hP, htable⟩
  refine Yields.step (fun _ => ⟨none, _, _, rfl⟩) ?_
  intro ch₃ _ s₃ he₃
  obtain ⟨_, rfl⟩ := Prod.mk.inj (Option.some.inj he₃)
  exact ⟨hP, htable⟩

/-! ## One page -/

/-- The argument of `fuse_add_direntry` for an entry. -/
def plainArg (e : Item FileKind) (arg : Stat) : Prop :=
  arg = { ino := e.id, mode := kindToModeBits e.data }

/-- The argument of `fuse_add_direntry_plus` for an entry, with the generation of its node. -/
def plusArg (ttl : Duration) (e : Item NodeAttr) (arg : EntryParam) : Prop :=
  ∃ generation, entryToEntryParam e.id generation e.data ttl = some arg

/-- A page of `readdir`: the callback pushes the entries `todo`. -/
lemma yields_readdir {fmt : Format Stat} {L todo : List (Item FileKind)}
    (hfmt : fmt.Lawful id (Writes plainArg L)) (htodo : ∀ e ∈ todo, e ∈ L)
    {s : RtState fs.toFsSig} {ino fh offset size : ℕ} {caller : Caller} (hopen : OpenDir s ino fh)
    (hroom : must → Room s ino fh)
    (hemits : ∀ node parent payload s₁, Enters fs n s ino fh node parent payload s₁ →
      Emits n (fun _ _ => True) (fun _ s s' => s' = s) todo
        (fs.readdir node.record.payload ino parent payload offset caller) s₁) :
    (service fs).Yields must n s
      (Runtime.readdir fs ino fh offset ((DirBuffer.new size).sink (DirBuffer.add fmt)) caller)
      fun r s' => (∃ offered, r = .ok offered ∧ fmt.Wrote plainArg
        ((DirBuffer.new size).after (DirBuffer.add fmt) offered).buf (fmt.page size todo)) ∧
          s'.handles.table = s.handles.table := by
  refine yields_scopes hopen hroom ?_
  intro node parent payload s₁ henters
  refine Yields.bind (yields_emits (I := fun offered s rest accepting =>
    DirBuffer.Filling fmt plainArg size todo
      ((DirBuffer.new size).after (DirBuffer.add fmt) offered)
      rest accepting ∧ (∀ e ∈ rest, e ∈ L) ∧ s.handles = s₁.handles) ?_ ?_ ?_ _
    (hemits node parent payload s₁ henters) ⟨DirBuffer.Filling.start, htodo, rfl⟩) ?_
  · intro i acc
    rfl
  · rintro i ch r acc s s' rest accepting he ⟨hfill, hsub, hh⟩
    exact ⟨hfill, hsub, (handles_execFs he).1.trans hh⟩
  · rintro e offered s rest - ⟨hfill, hsub, hh⟩
    refine Yields.ret ⟨⟨?_, ?_, hh⟩, fun _ => rfl, fun _ => rfl⟩
    · rw [DirBuffer.after_snoc]
      exact hfill.put hfmt (hsub e List.mem_cons_self) rfl
    · exact fun e' he' => hsub e' (List.mem_cons_of_mem e he')
  · rintro ⟨r, offered⟩ s' ⟨rest, accepting, ⟨hr, hdone⟩, hfill, _, hh⟩
    obtain rfl : r = .ok () := hr
    exact Yields.ret ⟨⟨offered, rfl, hfill.done hdone⟩, hh⟩

/-- What happens to the runtime when an entry of `readdirplus` is accepted: its lookup is retained,
unless it is a dot. -/
def Retains (n : ℕ) (e : Item NodeAttr) (s s' : RtState fs.toFsSig) : Prop :=
  if e.name.isDots then s' = s
  else ∃ ch g, (service fs).exec n (.retainLookup e.id) ch s = some (g, s')

/-- Retaining a lookup keeps every node live. -/
lemma Retains.live {e e' : Item NodeAttr} {s s' : RtState fs.toFsSig} (h : Retains n e s s')
    (hlive : LiveItem e' s) : LiveItem e' s' := by
  unfold Retains at h
  split at h
  · rw [h]
    exact hlive
  · obtain ⟨ch, g, he⟩ := h
    rcases addLookup_cases he with ⟨_, _, rfl⟩ | ⟨sl, _, _, _, _, hinc⟩
    · exact hlive
    · obtain ⟨sl', hsl'⟩ := hlive
      unfold LiveItem
      rw [slot_incr hinc, hsl']
      exact ⟨_, rfl⟩

/-- A lookup of a live node can be retained. -/
lemma exec_retainLookup {s : RtState fs.toFsSig} {id : NodeId} {sl : Slot fs.Node}
    (hslot : s.table.slot id = some sl) (hroom : s.table.count .lookups id + 1 < 2 ^ 64) :
    ∃ ch r s', (service fs).exec n (.retainLookup id) ch s = some (r, s') := by
  rw [count_of_slot hslot] at hroom
  have hinc : s.table.incr .lookups id =
      some (some sl, s.table.set id (sl.setCounter (sl.counter .lookups + 1) .lookups)) := by
    unfold NodeTable.incr
    rw [hslot]
    exact if_pos hroom
  have hadd : s.table.addLookup id = some _ := Option.map_eq_some_iff.mpr ⟨_, hinc, rfl⟩
  exact ⟨none, _, _, Option.map_eq_some_iff.mpr ⟨_, hadd, rfl⟩⟩

/-- The lookups of the nodes of a list, with as many more as there are entries left, are below
their limit. -/
def LookupRoom (L : List (Item NodeAttr)) (s : RtState fs.toFsSig) (left : ℕ) : Prop :=
  ∀ e ∈ L, s.table.count .lookups e.id + left < 2 ^ 64

/-- What is true while the callback of `readdirplus` runs: the buffer is being filled, the handles
are those of the state `s₁`, and the lookups have room for the rest. -/
structure PlusFilling (fmt : Format EntryParam) (ttl : Duration) (size : ℕ) (must : Prop)
    (L todo : List (Item NodeAttr)) (s₁ : RtState fs.toFsSig) (acc : Accounting)
    (s : RtState fs.toFsSig) (rest : List (Item NodeAttr)) (accepting : Bool) : Prop where
  filling : DirBuffer.Filling fmt (plusArg ttl) size todo
    ((DirBuffer.new size).after (DirBuffer.takePlus fmt ttl) acc.offered) rest accepting
  sub : ∀ e ∈ rest, e ∈ L
  handles : s.handles = s₁.handles
  wf : s.table.WF
  room : must → LookupRoom L s rest.length

namespace PlusFilling

variable {fmt : Format EntryParam} {ttl : Duration} {size : ℕ}
    {L todo rest : List (Item NodeAttr)}
  {s₁ s s' : RtState fs.toFsSig} {acc : Accounting} {accepting : Bool}

/-- An own step of the callback. -/
lemma exec (h : PlusFilling fmt ttl size must L todo s₁ acc s rest accepting)
    {i : FsInstr fs.toFsSig} {ch : Option fs.Choice} {r : i.Resp}
    (he : (service fs).exec n (.fs i) ch s = some (r, s')) :
    PlusFilling fmt ttl size must L todo s₁ acc s' rest accepting := by
  have hu := untouched_execFs h.wf he
  refine ⟨h.filling, h.sub, (handles_execFs he).1.trans h.handles, hu.wf, ?_⟩
  intro hm e he'
  rw [hu.count .lookups (Or.inl rfl)]
  exact h.room hm e he'

/-- The lookups have room for fewer entries. -/
lemma room_tail {e : Item NodeAttr}
    (h : PlusFilling fmt ttl size must L todo s₁ acc s (e :: rest) accepting) (hm : must) :
    LookupRoom L s rest.length := by
  intro e' he'
  have hroom := h.room hm e' he'
  rw [List.length_cons] at hroom
  omega

/-- Offering an entry that is skipped, or can be converted. -/
lemma take (hfmt : fmt.Lawful EntryParam.attr (Writes (plusArg ttl) L)) {e : Item NodeAttr}
    (hconvertible : e.Convertible)
    (h : PlusFilling fmt ttl size must L todo s₁ acc s (e :: rest) true) (generation : ℕ) :
    DirBuffer.Filling fmt (plusArg ttl) size todo
      ((DirBuffer.new size).after (DirBuffer.takePlus fmt ttl)
        (acc.offered ++ [⟨e.name, ⟨e.id, generation, e.data⟩, e.nextOffset⟩])) rest
      (((DirBuffer.new size).sink (DirBuffer.takePlus fmt ttl)) acc.offered
        ⟨e.name, ⟨e.id, generation, e.data⟩, e.nextOffset⟩) := by
  rw [DirBuffer.after_snoc, DirBuffer.sink]
  by_cases hnul : 0 ∈ e.name
  · rw [DirBuffer.takePlus_of_nul hnul]
    exact h.filling.skip hnul
  · have hw : e.writable = true := decide_eq_true hnul
    have hattr := (isSome_entryToEntryParam e.id generation e.data ttl).mpr (hconvertible hw)
    obtain ⟨arg, harg⟩ := Option.isSome_iff_exists.mp hattr
    rw [DirBuffer.takePlus_of_param
      (e := ⟨e.name, ⟨e.id, generation, e.data⟩, e.nextOffset⟩) hnul harg]
    exact h.filling.put hfmt (h.sub e List.mem_cons_self) ⟨generation, harg⟩

/-- `Accounting::add` with a live node. -/
lemma add (hfmt : fmt.Lawful EntryParam.attr (Writes (plusArg ttl) L)) {e : Item NodeAttr}
    (hlive : LiveItem e s) (hconvertible : e.Convertible)
    (h : PlusFilling fmt ttl size must L todo s₁ acc s (e :: rest) true) :
    (service fs).Yields must n s
      (Accounting.add ((DirBuffer.new size).sink (DirBuffer.takePlus fmt ttl)) acc e.name
        e.id e.data
        e.nextOffset) fun r s' =>
      PlusFilling fmt ttl size must L todo s₁ r.2 s' rest r.1 ∧
      (r.1 = true → Retains n e s s') ∧
        (r.1 = false → s' = s) := by
  obtain ⟨sl, hslot⟩ := hlive
  have hmem := h.sub e List.mem_cons_self
  have hsub : ∀ e' ∈ rest, e' ∈ L := fun e' he' => h.sub e' (List.mem_cons_of_mem e he')
  have hgen : ∀ ch, (service fs).exec n (.plusEntry e.id) ch s =
      some (some sl.generation, s) := by
    intro ch
    exact congrArg (fun o => some (Option.map Slot.generation o, s)) hslot
  refine Yields.step (fun _ => ⟨none, _, _, hgen none⟩) ?_
  intro ch₁ g s' he₁
  obtain ⟨rfl, rfl⟩ := Prod.mk.inj (Option.some.inj ((hgen ch₁).symm.trans he₁))
  have htake := h.take hfmt hconvertible sl.generation
  dsimp only
  split
  · next hsink =>
    have hfill : DirBuffer.Filling fmt (plusArg ttl) size todo
        ((DirBuffer.new size).after (DirBuffer.takePlus fmt ttl)
          (acc.offered ++ [⟨e.name, ⟨e.id, sl.generation, e.data⟩, e.nextOffset⟩]))
          rest true := by
      rw [hsink] at htake
      exact htake
    split
    · next hdots =>
      have hnotDots : ¬ e.name.isDots := not_or.mpr hdots
      have hgo : must →
          ∃ ch r s', (service fs).exec n (.retainLookup e.id) ch s = some (r, s') := by
        intro hm
        have hroom := h.room hm e hmem
        rw [List.length_cons] at hroom
        exact exec_retainLookup hslot (by omega)
      refine Yields.step hgo ?_
      intro ch₂ g s₂ he₂
      rcases addLookup_cases he₂ with ⟨_, hdead, _⟩ | ⟨sl', rfl, _, _, hh, hinc⟩
      · rw [hslot] at hdead
        cases hdead
      · have hretains : Retains n e s s₂ := by
          unfold Retains
          rw [if_neg hnotDots]
          exact ⟨ch₂, _, he₂⟩
        refine Yields.ret ⟨⟨hfill, hsub, hh.trans h.handles, h.wf.incr hinc, ?_⟩,
          fun _ => hretains, fun hfalse => absurd hfalse Bool.noConfusion⟩
        intro hm e' he'
        have hroom := h.room hm e' he'
        rw [List.length_cons] at hroom
        rw [count_incr hinc]
        split
        · omega
        · omega
    · next hdots =>
      have hisDots : e.name.isDots := by_contra fun hnot => hdots (not_or.mp hnot)
      have hretains : Retains n e s s := by
        unfold Retains
        rw [if_pos hisDots]
      exact Yields.ret ⟨⟨hfill, hsub, h.handles, h.wf, h.room_tail⟩, fun _ => hretains,
        fun _ => rfl⟩
  · next hsink =>
    have hfill : DirBuffer.Filling fmt (plusArg ttl) size todo
        ((DirBuffer.new size).after (DirBuffer.takePlus fmt ttl)
          (acc.offered ++ [⟨e.name, ⟨e.id, sl.generation, e.data⟩, e.nextOffset⟩]))
          rest false := by
      rw [Bool.eq_false_of_not_eq_true hsink] at htake
      exact htake
    exact Yields.ret ⟨⟨hfill, hsub, h.handles, h.wf, h.room_tail⟩,
      fun htrue => absurd htrue Bool.false_ne_true, fun _ => rfl⟩

end PlusFilling

/-- The callback of a listing is entered with the lookups of the state before the request. -/
lemma Enters.granted {s s' : RtState fs.toFsSig} (hwf : s.table.WF) {ino fh : ℕ}
    {node : NodeRef fs.Node} {parent : NodeId} {payload : fs.Payload .dir}
    (h : Enters fs n s ino fh node parent payload s') : Granted s s' [] := by
  obtain ⟨ch, s₁, record, hnode, _, hreach⟩ := h
  exact ((Granted.refl hwf).exec (i := .node ino) (by trivial) hnode).reaches hreach

/-- The callback of a listing is entered with the directory live. -/
lemma Enters.live {s s' : RtState fs.toFsSig} {ino fh : ℕ} {node : NodeRef fs.Node}
    {parent : NodeId} {payload : fs.Payload .dir}
    (h : Enters fs n s ino fh node parent payload s') : ∃ sl, s'.table.slot ino = some sl := by
  obtain ⟨ch, s₁, record, _, hparent, hfind, _, hacquire, harc, _⟩ := h
  obtain ⟨sl, hsl, _⟩ := Option.map_eq_some_iff.mp hparent
  have h₁ := (inert_exec (i := .findHandle .dir fh) (by trivial) hfind).1
  have h₂ := (inert_exec (i := .acquire .dir record) (by trivial) hacquire).1
  have h₃ := (inert_exec (i := .dropArc .dir record) (by trivial) harc).1
  exact ⟨sl, by rw [h₃, h₂, h₁, hsl]⟩

/-- A page of `readdirplus`: the callback pushes the entries `todo`, whose nodes are live, unless
the sink panics at one of them. -/
lemma yields_readdirplus {fmt : Format EntryParam} {ttl : Duration} {L todo : List (Item NodeAttr)}
    (hfmt : fmt.Lawful EntryParam.attr (Writes (plusArg ttl) L)) (htodo : ∀ e ∈ todo, e ∈ L)
    {s : RtState fs.toFsSig} (hwf : s.table.WF) {ino fh offset size : ℕ} {caller : Caller}
    (hopen : OpenDir s ino fh) (hroom : must → Room s ino fh)
    (hlookups : must → LookupRoom L s todo.length)
    (hemits : ∀ node parent payload s₁, Enters fs n s ino fh node parent payload s₁ →
      EmitsTo n (fun e s => LiveItem e s ∧ e.Convertible) (Retains n) (PushedOr todo) todo
        (fs.readdirplus node.record.payload ino parent payload offset caller) s₁) :
    (service fs).Yields must n s
      (Runtime.readdirplus fs ino fh offset
        ((DirBuffer.new size).sink (DirBuffer.takePlus fmt ttl)) caller)
      fun r s' => ((∃ ids offered, r = .ok (ids, offered) ∧ fmt.Wrote (plusArg ttl)
        ((DirBuffer.new size).after (DirBuffer.takePlus fmt ttl) offered).buf
          (fmt.page size todo)) ∨ (r = .error .panic ∧ ∃ e ∈ todo, ¬ e.Convertible)) ∧
        s'.handles.table = s.handles.table := by
  rw [readdirplus_eq]
  refine yields_scopes hopen hroom ?_
  intro node parent payload s₁ henters
  have hgranted := henters.granted hwf
  have hstart : PlusFilling fmt ttl size must L todo s₁ {} s₁ todo true := by
    refine ⟨DirBuffer.Filling.start, htodo, rfl, hgranted.wf, ?_⟩
    intro hm e he
    rw [hgranted.lookups, List.count_nil, add_zero]
    exact hlookups hm e he
  refine Yields.bind (yields_emits (I := PlusFilling fmt ttl size must L todo s₁) ?_ ?_ ?_ _
    (hemits node parent payload s₁ henters) hstart) ?_
  · intro i acc
    rfl
  · intro i ch r acc s s' rest accepting he h
    exact h.exec he
  · rintro e acc s rest ⟨hlive, hconvertible⟩ h
    exact h.add hfmt hlive hconvertible
  · rintro ⟨r, acc⟩ s' ⟨rest, accepting, hend, hfill⟩
    rcases hend with ⟨hr, hdone⟩ | ⟨hr, hbad⟩
    · obtain rfl : r = .ok () := hr
      exact Yields.ret ⟨Or.inl ⟨acc.accepted, acc.offered, rfl, hfill.filling.done hdone⟩,
        hfill.handles⟩
    · obtain rfl : r = .error .panic := hr
      refine Yields.step (fun _ => ⟨none, _, _, rfl⟩) ?_
      intro ch _ s₂ he
      obtain ⟨_, rfl⟩ := Prod.mk.inj (Option.some.inj he)
      exact Yields.ret ⟨Or.inr ⟨rfl, hbad⟩, hfill.handles⟩

end TypedFuse
