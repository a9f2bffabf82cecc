import TypedFuse.Core.Frame
import TypedFuse.Core.Sample

/-!
# The runtime keeps its promises

What the invariant of the token logic says about runs of the runtime, with any filesystem and under
any scheduling: exact reference accounting, the life cycle of handles, inode identities that are
never issued twice, and entry replies that name the node a callback resolved.
-/

namespace TypedFuse

open Conc Conc.Service NodeTable TypedFuse.Runtime

variable {fs : NodeFs}

/-! ## Reference accounting -/

/-- The runs in which the kernel forgets only what it holds and callbacks do not panic. -/
def Env.accounting : Env := ⟨True, True, False⟩

lemma holds_accounting (hfs : fs.NoPanic) {c : Config (service fs)}
    (hr : Run HonestKernel (start fs) c) : (rtLogic fs Env.accounting).Holds c :=
  holds_of_run (fun _ => hfs) (fun _ _ _ h => h) False.elim hr

lemma mem_view_lookups {m : ℕ × ℕ} {T : Multiset Token} (h : m ∈ (view T).lookups) :
    Token.lookup m.1 m.2 ∈ T := by
  induction T using Multiset.induction with
  | empty => simp [view, View.empty] at h
  | cons x T ih =>
    rw [view_cons] at h
    cases x with
    | lookup n' id' =>
      rcases Multiset.mem_cons.mp h with rfl | h
      · exact Multiset.mem_cons_self _ _
      · exact Multiset.mem_cons_of_mem (ih h)
    | _ => exact Multiset.mem_cons_of_mem (ih h)

/-- The four counters of a live slot: `lookups` counts the lookups that `entry_for` and
`retain_lookup` have granted and `forget` has not taken back, `opens` the handles between `add_open`
and `remove_open`, and `leases` the live `NodeRef`s; and one of the counters is not zero. -/
structure SlotAccounting (s : RtState fs.toFsSig) (i : NodeId) (sl : Slot fs.Node) : Prop where
  lookups : sl.lookups + s.hist.forgotten.count i = s.hist.granted.count i
  opens : sl.opens =
    s.handles.registered i + s.hist.opening.count i + s.hist.closing.count i
  leases : sl.leases = (s.hist.rtRefs + s.hist.fsRefs).countP fun x => x.1 = i
  alive : sl.droppable = false

/-- The counters of live slots are exact, an inode that is not live is not referred to, and the
reclaimed slots had no references left. -/
structure Accounted (s : RtState fs.toFsSig) : Prop where
  live : ∀ i sl, s.table.slot i = some sl → SlotAccounting s i sl
  dead : ∀ i, s.table.slot i = none →
    s.hist.granted.count i = s.hist.forgotten.count i ∧ s.handles.registered i = 0 ∧
      ∀ x ∈ s.hist.rtRefs + s.hist.fsRefs, x.1 ≠ i
  reclaimed : ∀ e ∈ s.table.reclaimed, e.2.droppable = true
  /-- What was granted was forgotten, or the kernel has it, or a running request is handling it. -/
  granted : s.hist.granted = s.hist.forgotten + s.hist.held + s.hist.pending.map Prod.snd

lemma Inv.accounted {s : RtState fs.toFsSig} {v : View} (hi : Inv Env.accounting s v) :
    Accounted s := by
  have hleaked : s.hist.leaked = 0 := hi.lookedUp.leaked trivial trivial
  have hgranted : s.hist.granted =
      s.hist.forgotten + s.hist.held + s.hist.pending.map Prod.snd := by
    rw [hi.lookedUp.granted trivial, hleaked, add_zero, hi.lookedUp.pending]
  have hlookups : ∀ i, s.table.count .lookups i + s.hist.forgotten.count i =
      s.hist.granted.count i := by
    intro i
    rw [hgranted, hi.lookedUp.count trivial, hleaked, Multiset.count_add, Multiset.count_add,
      Multiset.count_zero, hi.lookedUp.pending]
    omega
  have hopens : ∀ i, s.table.count .opens i =
      s.handles.registered i + s.hist.opening.count i + s.hist.closing.count i := by
    intro i
    rw [hi.opens.count, hi.opens.opening, hi.opens.closing]
  refine ⟨?_, ?_, hi.wf.reclaimed, hgranted⟩
  · intro i sl hsl
    refine ⟨?_, ?_, ?_, hi.wf.live i sl hsl⟩
    · rw [← hlookups i, count_of_slot hsl]
      rfl
    · rw [← hopens i, count_of_slot hsl]
      rfl
    · rw [← hi.leased.count i, count_of_slot hsl]
      rfl
  · intro i hdead
    have hl := hlookups i
    have ho := hopens i
    have hr := hi.leased.count i
    rw [count_of_dead hdead] at hl ho hr
    refine ⟨by omega, by omega, ?_⟩
    intro x hx
    exact Multiset.countP_eq_zero.mp hr.symm x hx

/-- Exact reference accounting.  In every state reachable by any interleaving of requests, for any
filesystem that does not panic and any kernel that forgets only what it holds, the counters count
what they should, a slot is in the table exactly as long as it has a reference, and a request that
was answered with an error has given back every lookup it counted. -/
theorem reference_accounting_exact (hfs : fs.NoPanic) {c : Config (service fs)}
    (hr : Run HonestKernel (start fs) c) :
    Accounted c.state ∧
      ∀ (n : ℕ) (t : Thread (service fs)) (a : Fallible Reply),
        c.threads[n]? = some t → t.phase = .done a →
        ∀ i, (n, i) ∉ c.state.hist.pending := by
  have hholds := holds_accounting hfs hr
  obtain ⟨T, hi, howner⟩ := hholds.owner
  refine ⟨Inv.accounted hi, ?_⟩
  intro n t a ht hd i hm
  -- the token of a pending lookup belongs to a thread that is still running
  have hi' : Inv Env.accounting c.state (view T) := hi
  rw [hi'.lookedUp.pending] at hm
  obtain ⟨m, t', ht', ⟨p, hp⟩, hown⟩ := howner _ (mem_view_lookups hm)
  have hid : n = t'.id := hown
  have hnum := hholds.numbered m t' ht'
  have hmn : m = n := by omega
  rw [hmn, ht] at ht'
  obtain rfl := Option.some.inj ht'
  rw [hd] at hp
  cases hp

/-- Two lookups that are answered, one of which is forgotten. -/
private def answeredLookups : List (Action (service Sample.fs)) :=
  [Sample.lookup [97], Sample.lookup [98]] ++ Sample.steps 0 5 ++ Sample.steps 1 5 ++
    [.answer 0, .answer 1, .issue (.forget 2 1)] ++ Sample.steps 2 1

/-- Accounting after two answered lookups, one of which is forgotten. -/
theorem reference_accounting_exact_lookups : ∃ c : Config (service Sample.fs),
    Run HonestKernel (start Sample.fs) c ∧ c.state.hist.granted = {2, 3} ∧
      c.state.hist.forgotten = {2} ∧ c.state.hist.held = {3} ∧ Accounted c.state ∧
      ∀ (n : ℕ) (t : Thread (service Sample.fs)) (a : Fallible Reply),
        c.threads[n]? = some t → t.phase = .done a →
        ∀ i, (n, i) ∉ c.state.hist.pending := by
  have hr : Run HonestKernel (start Sample.fs) (Sample.after Sample.honestCheck answeredLookups) :=
    run_of_runs Sample.honestKernel_of_check
      (show (start Sample.fs).runs Sample.honestCheck answeredLookups = some _ from rfl)
  exact ⟨_, hr, by decide, by decide, by decide, reference_accounting_exact Sample.noPanic hr⟩

/-! ## The life cycle of handles -/

/-- A closed record stays closed, and no new lease on it appears. -/
structure StaysClosed {P : HandleKind → Type} (hs hs' : Handles P)
    (leases leases' : Multiset (HandleKind × ℕ)) : Prop where
  closing : ∀ k a cell, (hs.cells k).lookup a = some cell → cell.closing = true →
    ∃ cell', (hs'.cells k).lookup a = some cell' ∧ cell'.closing = true
  leases : ∀ k a cell, (hs.cells k).lookup a = some cell → cell.closing = true →
    leases'.count (k, a) ≤ leases.count (k, a)

namespace StaysClosed

variable {P : HandleKind → Type} {hs hs' : Handles P} {L L' : Multiset (HandleKind × ℕ)}

lemma refl (hs : Handles P) (L : Multiset (HandleKind × ℕ)) : StaysClosed hs hs L L :=
  ⟨fun _ _ cell hc hcl => ⟨cell, hc, hcl⟩, fun _ _ _ _ _ => le_rfl⟩

/-- Writing one record, without reopening it and without a new lease on a closed record. -/
lemma setCell {k : HandleKind} {a : ℕ} {cell cell' : HandleCell (P k)}
    (hcell : (hs.cells k).lookup a = some cell)
    (hcl : cell.closing = true → cell'.closing = true)
    (hL : ∀ k' a', (cell.closing = true ∨ (k', a') ≠ (k, a)) →
      L'.count (k', a') ≤ L.count (k', a')) : StaysClosed hs (hs.setCell k a cell') L L' where
  closing := by
    intro k' a' c hc hclosed
    by_cases heq : (k', a') = (k, a)
    · obtain ⟨rfl, rfl⟩ := Prod.mk.inj heq
      obtain rfl := Option.some.inj (hcell.symm.trans hc)
      exact ⟨cell', hs.lookup_setCell _ _ _, hcl hclosed⟩
    · exact ⟨c, (hs.lookup_setCell_ne cell' heq).trans hc, hclosed⟩
  leases := by
    intro k' a' c hc hclosed
    refine hL k' a' ?_
    by_cases heq : (k', a') = (k, a)
    · obtain ⟨rfl, rfl⟩ := Prod.mk.inj heq
      obtain rfl := Option.some.inj (hcell.symm.trans hc)
      exact Or.inl hclosed
    · exact Or.inr heq

end StaysClosed

namespace StaysClosed

variable {P : HandleKind → Type} {hs hs' : Handles P} {L : Multiset (HandleKind × ℕ)}
  {k : HandleKind}

/-- Registering a handle writes a fresh record. -/
lemma add (hfresh : ∀ k a, hs.nextFh ≤ a → (hs.cells k).lookup a = none) {node : NodeId}
    {payload : P k} {fh : ℕ} (h : hs.add k node payload = some (fh, hs')) :
    StaysClosed hs hs' L L := by
  refine ⟨?_, fun _ _ _ _ _ => le_rfl⟩
  intro k' a' cell hc hcl
  unfold Handles.add at h
  split at h
  · obtain ⟨_, rfl⟩ := Prod.mk.inj (Option.some.inj h)
    refine ⟨cell, (hs.lookup_setCell_ne _ ?_).trans hc, hcl⟩
    intro heq
    obtain ⟨rfl, rfl⟩ := Prod.mk.inj heq
    rw [hfresh k' hs.nextFh le_rfl] at hc
    cases hc
  · cases h

/-- Looking a handle up. -/
lemma find {fh : ℕ} {r : Option HandleArc} (h : hs.find k fh = some (r, hs')) :
    StaysClosed hs hs' L L := by
  unfold Handles.find at h
  split at h
  · obtain ⟨_, rfl⟩ := Prod.mk.inj (Option.some.inj h)
    exact .refl _ _
  · split at h
    · next cell hcell =>
      obtain ⟨_, rfl⟩ := Prod.mk.inj (Option.some.inj h)
      exact .setCell hcell (fun hcl => hcl) fun _ _ _ => le_rfl
    · cases h

/-- Removing a handle from its table. -/
lemma remove {ino fh : ℕ} : StaysClosed hs (hs.remove k ino fh).2 L L := by
  unfold Handles.remove
  split
  · exact .refl _ _
  · split
    · exact ⟨fun _ _ cell hc hcl => ⟨cell, hc, hcl⟩, fun _ _ _ _ _ => le_rfl⟩
    · exact .refl _ _

/-- Asking for a lease: a closed record grants none. -/
lemma acquire {a : ℕ} {granted : Bool} (h : hs.acquire k a = some (granted, hs')) :
    StaysClosed hs hs' L (if granted then (k, a) ::ₘ L else L) := by
  unfold Handles.acquire at h
  split at h
  · cases h
  · next cell hcell =>
    split at h
    · obtain ⟨rfl, rfl⟩ := Prod.mk.inj (Option.some.inj h)
      exact .refl _ _
    · next hopen =>
      split at h
      · obtain ⟨rfl, rfl⟩ := Prod.mk.inj (Option.some.inj h)
        refine .setCell hcell (fun hcl => absurd hcl hopen) ?_
        rintro k' a' (hcl | hne)
        · exact absurd hcl hopen
        · rw [if_pos rfl, Multiset.count_cons_of_ne hne]
      · cases h

end StaysClosed

/-- No instruction reopens a closed record or grants a lease on it. -/
lemma StaysClosed.exec {σ : FsSig} {E : Env} {s s' : RtState σ} {v : View}
    (hi : Inv E s v) {n : ℕ} {i : RtInstr σ} {ch : Option σ.Choice} {r : i.Resp}
    (he : s.exec n i ch = some (r, s')) :
    StaysClosed s.handles s'.handles s.hist.handleLeases s'.hist.handleLeases := by
  cases i with
  | fs i =>
    obtain ⟨hh, hl⟩ := handles_execFs he
    rw [hh, hl]
    exact .refl _ _
  | grant id | retainLookup id =>
    obtain ⟨_, _, heq⟩ := Option.map_eq_some_iff.mp he
    obtain ⟨_, rfl⟩ := Prod.mk.inj heq
    dsimp only
    split <;> exact .refl _ _
  | node | lease | addOpen | deref =>
    obtain ⟨_, _, heq⟩ := Option.map_eq_some_iff.mp he
    obtain ⟨_, rfl⟩ := Prod.mk.inj heq
    exact .refl _ _
  | dropNode | denote | plusEntry | forget | leak | removeOpen | parentOf | discard =>
    obtain ⟨_, rfl⟩ := Prod.mk.inj (Option.some.inj he)
    exact .refl _ _
  | addHandle k node payload =>
    obtain ⟨⟨fh, hs'⟩, hadd, heq⟩ := Option.map_eq_some_iff.mp he
    obtain ⟨_, rfl⟩ := Prod.mk.inj heq
    exact .add hi.handles.fresh hadd
  | findHandle k fh =>
    obtain ⟨⟨o, hs'⟩, hfind, heq⟩ := Option.map_eq_some_iff.mp he
    obtain ⟨_, rfl⟩ := Prod.mk.inj heq
    exact .find hfind
  | removeHandle k ino fh =>
    obtain ⟨_, rfl⟩ := Prod.mk.inj (Option.some.inj he)
    exact .remove
  | acquire k arc =>
    obtain ⟨⟨granted, hs'⟩, hacq, heq⟩ := Option.map_eq_some_iff.mp he
    obtain ⟨_, rfl⟩ := Prod.mk.inj heq
    exact .acquire hacq
  | dropLease k arc =>
    obtain ⟨hs', hd, heq⟩ := Option.map_eq_some_iff.mp he
    obtain ⟨_, rfl⟩ := Prod.mk.inj heq
    obtain ⟨cell, hcell, rfl⟩ := Option.map_eq_some_iff.mp hd
    exact .setCell hcell (fun hcl => hcl) fun _ _ _ =>
      Multiset.count_le_of_le _ (Multiset.erase_le _ _)
  | dropArc k arc =>
    obtain ⟨hs', hd, heq⟩ := Option.map_eq_some_iff.mp he
    obtain ⟨_, rfl⟩ := Prod.mk.inj heq
    obtain ⟨cell, hcell, rfl⟩ := Option.map_eq_some_iff.mp hd
    refine .setCell hcell ?_ fun _ _ _ => le_rfl
    intro hcl
    split <;> exact hcl
  | close k arc =>
    obtain ⟨⟨b, hs'⟩, hc, heq⟩ := Option.map_eq_some_iff.mp he
    obtain ⟨_, rfl⟩ := Prod.mk.inj heq
    obtain ⟨cell, hcell, heq'⟩ := Option.map_eq_some_iff.mp hc
    split at heq'
    · obtain ⟨_, rfl⟩ := Prod.mk.inj heq'
      exact .setCell hcell (fun _ => rfl) fun _ _ _ => le_rfl
    · obtain ⟨_, rfl⟩ := Prod.mk.inj heq'
      exact .setCell hcell (fun _ => rfl) fun _ _ _ => le_rfl
  | drain k arc =>
    obtain ⟨hs', hd, heq⟩ := Option.map_eq_some_iff.mp he
    obtain ⟨_, rfl⟩ := Prod.mk.inj heq
    unfold Handles.drain at hd
    split at hd
    · next cell hcell =>
      split at hd
      · obtain rfl := Option.some.inj hd
        exact .setCell hcell (fun hcl => hcl) fun _ _ _ => le_rfl
      · cases hd
    · cases hd
  | take k arc =>
    obtain ⟨⟨payload, hs'⟩, ht, heq⟩ := Option.map_eq_some_iff.mp he
    obtain ⟨_, rfl⟩ := Prod.mk.inj heq
    unfold Handles.take at ht
    split at ht
    · next cell hcell =>
      split at ht
      · obtain ⟨_, rfl⟩ := Prod.mk.inj (Option.some.inj ht)
        exact .setCell hcell (fun hcl => hcl) fun _ _ _ => le_rfl
      · cases ht
    · cases ht

/-- Every action of a reachable configuration keeps closed records closed. -/
lemma StaysClosed.next {c c' : Config (service fs)} {act : Action (service fs)}
    (hr : Run anyAction (start fs) c) (hn : c.next act = some c') :
    StaysClosed c.state.handles c'.state.handles c.state.hist.handleLeases
      c'.state.hist.handleLeases := by
  cases act with
  | issue req =>
    obtain ⟨s, hs, rfl⟩ := next_issue hn
    obtain rfl := Option.some.inj hs
    cases req with
    | forget => exact .refl _ _
    | _ => exact .refl _ _
  | step n ch =>
    obtain ⟨id, req, i, k, r, s, _, he, rfl⟩ := next_step hn
    obtain ⟨T, hi⟩ := (holds_any hr).inv
    exact .exec hi he
  | answer n =>
    obtain ⟨id, req, a, _, rfl⟩ := next_answer hn
    exact .refl _ _

/-- Every existing record has as many active leases as there are `HandleLease`s, and its payload
was never dropped by `HandleRecord::drop`. -/
lemma HandleInv.cells {P : HandleKind → Type} {hs : Handles P} {h : History} {o : Owners}
    {took : Multiset (ℕ × HandleKind × ℕ)} (hi : HandleInv hs h o took) {k : HandleKind}
    {a : ℕ} {cell : HandleCell (P k)} (hc : (hs.cells k).lookup a = some cell) :
    cell.active = h.handleLeases.count (k, a) ∧ cell.dropped = false := by
  have hrec := hi.record k a
  unfold RecordOk at hrec
  rw [hc] at hrec
  refine ⟨?_, hrec.dropped⟩
  rw [hrec.active, hi.leases]
  rfl

/-- What holds at the instructions of the handle protocol and of every record. -/
structure HandleSafety (c : Config (service fs)) : Prop where
  /-- `active` is the number of live leases, and the payload is not dropped by its record. -/
  cells : ∀ k a cell, (c.state.handles.cells k).lookup a = some cell →
    cell.active = c.state.hist.handleLeases.count (k, a) ∧ cell.dropped = false
  /-- When the payload is moved out, the record is closed, nobody has a lease, and the payload is
  there and was not moved out before. -/
  take : ∀ n req k arc, c.At n req (.take k arc) →
    ∃ cell, (c.state.handles.cells k).lookup arc.addr = some cell ∧ cell.closing = true ∧
      cell.active = 0 ∧ c.state.hist.handleLeases.count (k, arc.addr) = 0 ∧
      cell.payload.isSome = true ∧
      c.state.hist.released.countP (fun x => x.2 = (k, arc.addr)) = 0
  /-- When the payload is read through a lease, it is there and was not taken. -/
  deref : ∀ n req k arc, c.At n req (.deref k arc) →
    ∃ cell, (c.state.handles.cells k).lookup arc.addr = some cell ∧
      cell.payload.isSome = true ∧
      cell.taken = false
  /-- When a lease is dropped, the counter is not zero. -/
  dropLease : ∀ n req k arc, c.At n req (.dropLease k arc) →
    ∃ cell, (c.state.handles.cells k).lookup arc.addr = some cell ∧ 0 < cell.active
  /-- A payload is moved out for `release` at most once. -/
  once : ∀ k a, c.state.hist.released.countP (fun x => x.2 = (k, a)) ≤ 1
  /-- A `release` that moved no payload out answered `EBADF`. -/
  others : ∀ (n : ℕ) (t : Thread (service fs)) (a : Fallible Reply) k ino fh caller,
    c.threads[n]? = some t → t.req = Request.release k ino fh caller → t.phase = .done a →
      a = fail .EBADF ∨ (n, k, fh) ∈ c.state.hist.released

/-- The safety of the handle protocol follows from the token logic. -/
lemma handleSafety_of_holds {c : Config (service fs)} (hh : (rtLogic fs Env.any).Holds c) :
    HandleSafety c where
  cells := by
    intro k a cell hc
    obtain ⟨T, hi⟩ := hh.inv
    exact (Inv.handles hi).cells hc
  take := by
    intro n req k arc hat
    obtain ⟨id, C, F, hC, hi⟩ := hh.contract hat
    cases hC with
    | take =>
      have hi' : Inv Env.any c.state _ := hi
      rw [view_single] at hi'
      obtain ⟨cell, hcell, hcl, hact, hpay, hno, hrel⟩ := hi'.handles.drained
      refine ⟨cell, hcell, hcl, hact, ?_, hpay, hrel⟩
      rw [hi'.handles.leases]
      exact hno
  deref := by
    intro n req k arc hat
    obtain ⟨id, C, F, hC, hi⟩ := hh.contract hat
    cases hC with
    | deref =>
      have hi' : Inv Env.any c.state _ := hi
      rw [view_single] at hi'
      exact hi'.handles.deref
  dropLease := by
    intro n req k arc hat
    obtain ⟨id, C, F, hC, hi⟩ := hh.contract hat
    cases hC with
    | dropLease =>
      have hi' : Inv Env.any c.state _ := hi
      rw [view_single] at hi'
      obtain ⟨cell, hcell, _⟩ := hi'.handles.cell_of_lease (Multiset.mem_cons_self _ _)
      refine ⟨cell, hcell, ?_⟩
      rw [(hi'.handles.cells hcell).1, hi'.handles.leases]
      exact Multiset.count_pos.mpr (Multiset.mem_cons_self _ _)
  once := by
    intro k a
    obtain ⟨T, hi⟩ := hh.inv
    exact (Inv.handles hi).released_le_one k a
  others := by
    intro n t a k ino fh caller ht hreq hd
    have hfact : Fact Env.any t.id t.req a c.state := hh.facts n t a ht hd
    rw [hh.numbered n t ht] at hfact
    exact hfact.2 k ino fh caller hreq

/-- The life cycle of a handle, under any interleaving of requests with any filesystem: the payload
is moved out at most once and only when the record is closed and has no leases, it is not read or
dropped afterwards, all other releases of the handle answer `EBADF`, and a closed record stays
closed and gets no new lease. -/
theorem handle_lifecycle {c : Config (service fs)} (hr : Run anyAction (start fs) c) :
    HandleSafety c ∧
      (∀ (n m : ℕ) (t u : Thread (service fs)) (a b : Fallible Reply) k
        ino ino' fh caller caller',
        n ≠ m → c.threads[n]? = some t → c.threads[m]? = some u →
        t.req = Request.release k ino fh caller → u.req = Request.release k ino' fh caller' →
        t.phase = .done a → u.phase = .done b → a = fail .EBADF ∨ b = fail .EBADF) ∧
      ∀ act c', c.next act = some c' →
        StaysClosed c.state.handles c'.state.handles c.state.hist.handleLeases
          c'.state.hist.handleLeases := by
  have hsafe := handleSafety_of_holds (holds_any hr)
  refine ⟨hsafe, ?_, fun act c' hn => .next hr hn⟩
  intro n m t u a b k ino ino' fh caller caller' hne ht hu hreqt hrequ hdt hdu
  by_contra hnot
  obtain ⟨hnt, hnu⟩ := not_or.mp hnot
  have hn := (hsafe.others n t a k ino fh caller ht hreqt hdt).resolve_left hnt
  have hm := (hsafe.others m u b k ino' fh caller' hu hrequ hdu).resolve_left hnu
  -- two threads that moved the payload out would be counted twice
  obtain ⟨rest, hrest⟩ := Multiset.exists_cons_of_mem hn
  have hm' : (m, k, fh) ∈ rest := by
    rw [hrest] at hm
    rcases Multiset.mem_cons.mp hm with heq | hm
    · exact absurd (Prod.mk.inj heq).1.symm hne
    · exact hm
  have hone := hsafe.once k fh
  rw [hrest, Multiset.countP_cons, if_pos rfl] at hone
  have hpos : 0 < rest.countP fun x => x.2 = (k, fh) := Multiset.countP_pos.mpr ⟨_, hm', rfl⟩
  omega

/-- A file is opened and released by two requests at once. -/
private def doubleRelease : List (Action (service Sample.fs)) :=
  [.issue (.openNode .file NodeId.ROOT 0 {})] ++ Sample.steps 0 4 ++ [.answer 0,
    .issue (.release .file NodeId.ROOT 1 {}), .issue (.release .file NodeId.ROOT 1 {})] ++
    Sample.steps 2 1 ++ Sample.steps 1 1 ++ Sample.steps 2 6 ++ [.answer 1, .answer 2]

/-- The second of two releases of one handle answers `EBADF`. -/
theorem handle_lifecycle_doubleRelease : ∃ c : Config (service Sample.fs),
    Run anyAction (start Sample.fs) c ∧ c.state.hist.released = {(2, .file, 1)} ∧
      HandleSafety c ∧
      (∀ (n m : ℕ) (t u : Thread (service Sample.fs)) (a b : Fallible Reply) k
        ino ino' fh caller
          caller', n ≠ m → c.threads[n]? = some t → c.threads[m]? = some u →
        t.req = Request.release k ino fh caller → u.req = Request.release k ino' fh caller' →
        t.phase = .done a → u.phase = .done b → a = fail .EBADF ∨ b = fail .EBADF) ∧
      ∀ act c', c.next act = some c' →
        StaysClosed c.state.handles c'.state.handles c.state.hist.handleLeases
          c'.state.hist.handleLeases := by
  have hr : Run anyAction (start Sample.fs) (Sample.after Sample.anyCheck doubleRelease) :=
    run_of_runs Sample.anyAction_of_check
      (show (start Sample.fs).runs Sample.anyCheck doubleRelease = some _ from rfl)
  exact ⟨_, hr, by decide, handle_lifecycle hr⟩

/-! ## Inode identity -/

/-- What the allocator keeps true of the inode numbers. -/
structure NumbersOk (t : NodeTable fs.Node) : Prop where
  /-- No number is free twice. -/
  distinct : (t.free.map Prod.fst).Nodup
  /-- A free number is not live and has been used before. -/
  disjoint : ∀ p ∈ t.free, t.slot p.1 = none ∧ p.1 < t.nextIno
  /-- `Cx::insert` overwrites no live slot. -/
  insert : ∀ payload parent id t', t.insert payload parent = some (id, t') → t.slot id = none

/-- An identity that is issued, or the root's, belongs to one record. -/
lemma record_unique {t t' : NodeTable fs.Node} (ht : t.WF) (ht' : t'.WF)
    (hsub : t.issued <:+ t'.issued) (hlen : t'.issued.length < 2 ^ 64) {i : NodeId}
    {s s' : Slot fs.Node} (hs : t.slot i = some s) (hs' : t'.slot i = some s')
    (hgen : s'.generation = s.generation) : s'.record.addr = s.record.addr := by
  rcases ht.live_issue i s hs with ⟨e, he, hid, haddr⟩ | ⟨rfl, hg, haddr⟩
  · have hmem : e ∈ t'.issued := hsub.subset he
    rcases ht'.live_issue i s' hs' with ⟨e', he', hid', haddr'⟩ | ⟨rfl, hg', haddr'⟩
    · rw [← haddr, ← haddr']
      exact ht'.ordered.addr_unique hlen he' hmem (by rw [hid, hid', hgen])
    · refine absurd ?_ (ht'.ordered.ne_root hlen hmem)
      rw [hid, ← hgen, hg']
  · rcases ht'.live_issue NodeId.ROOT s' hs' with ⟨e', he', hid', haddr'⟩ |
      ⟨_, hg', haddr'⟩
    · refine absurd ?_ (ht'.ordered.ne_root hlen he')
      rw [hid', hgen, hg]
    · rw [haddr, haddr']

/-- Inode identities are never reissued.  In every run with any filesystem and any interleaving,
the free numbers are distinct, unused and below the next fresh number, an insertion overwrites no
live slot, and as long as fewer than `2 ^ 64` insertions were made they received pairwise distinct
identities, none of them the root's; so an identity that denoted a node at one point of the run
denotes no other node later. -/
theorem inode_identity_unique {c c' : Config (service fs)} (hr : Run anyAction (start fs) c)
    (hr' : Run anyAction c c') (hlen : c'.state.table.issued.length < 2 ^ 64) :
    NumbersOk c.state.table ∧ NumbersOk c'.state.table ∧
      (c'.state.table.issued.map Issue.identity).Nodup ∧
      (NodeId.ROOT, 0) ∉ c'.state.table.issued.map Issue.identity ∧
      ∀ i s s', c.state.table.slot i = some s → c'.state.table.slot i = some s' →
        s'.generation = s.generation → s'.record.addr = s.record.addr := by
  have hwf : ∀ {d : Config (service fs)}, Run anyAction (start fs) d → d.state.table.WF := by
    intro d hd
    obtain ⟨T, hi⟩ := (holds_any hd).inv
    exact Inv.wf hi
  have hok : ∀ {d : Config (service fs)}, Run anyAction (start fs) d →
      NumbersOk d.state.table := by
    intro d hd
    have h := hwf hd
    exact ⟨h.free_nodup, fun p hp => ⟨h.free_dead p hp, h.free_lt p hp⟩,
      fun payload parent id t' hins => h.insert_dead hins⟩
  have h' := hwf (hr.trans hr')
  refine ⟨hok hr, hok (hr.trans hr'), h'.ordered.nodup hlen, ?_, ?_⟩
  · intro hm
    obtain ⟨e, he, hid⟩ := List.mem_map.mp hm
    exact h'.ordered.ne_root hlen he hid
  · intro i s s' hs hs' hgen
    exact record_unique (hwf hr) h' (Grows.run hr').issued hlen hs hs' hgen

/-- A node is looked up and unlinked, and its number is used again. -/
private def reuse : List (Action (service Sample.fs)) :=
  [Sample.lookup [97]] ++ Sample.steps 0 1 ++ [.issue (.treeOp (.unlink NodeId.ROOT [97]) {})] ++
    Sample.steps 1 1 ++ [Sample.lookup [98]] ++ Sample.steps 2 1

/-- The number `2` is issued twice, with different generations. -/
theorem inode_identity_unique_reuse : ∃ c : Config (service Sample.fs),
    Run anyAction (start Sample.fs) c ∧
      c.state.table.issued.map Issue.identity = [(2, 1), (2, 0)] ∧
      c.state.table.issued.length < 2 ^ 64 ∧
      NumbersOk c.state.table ∧ NumbersOk c.state.table ∧
      (c.state.table.issued.map Issue.identity).Nodup ∧
      (NodeId.ROOT, 0) ∉ c.state.table.issued.map Issue.identity ∧
      ∀ i s s', c.state.table.slot i = some s → c.state.table.slot i = some s' →
        s'.generation = s.generation → s'.record.addr = s.record.addr := by
  have hr : Run anyAction (start Sample.fs) (Sample.after Sample.anyCheck reuse) :=
    run_of_runs Sample.anyAction_of_check
      (show (start Sample.fs).runs Sample.anyCheck reuse = some _ from rfl)
  have hlen : (Sample.after Sample.anyCheck reuse).state.table.issued.length < 2 ^ 64 := by decide
  exact ⟨_, hr, by decide, hlen, inode_identity_unique hr .refl hlen⟩

/-! ## Entry replies -/

/-- The runs in which no inode number is issued while it is being resolved. -/
def Env.resolving : Env := ⟨False, False, True⟩

/-- Every entry reply names the node that the callback returned: its generation and the record
whose attributes it carries are those that the node identifier denoted when the callback returned
it; and a request that found the node identifier dead answers `ENOENT`. -/
structure EntriesExact (c : Config (service fs)) : Prop where
  exact : ∀ (n : ℕ) (t : Thread (service fs)) (a : Fallible Reply),
    c.threads[n]? = some t → t.phase = .done a → ExactReply a
  vanished : ∀ (n id : ℕ) (req : Request) (a : Fallible Reply),
    c.threads[n]? = some ⟨id, req, .running (.ret a)⟩ → id ∈ c.state.hist.vanished →
      a = fail .ENOENT

/-- Entry replies name the node that was resolved, in every run in which `Cx::insert` is not given
an inode number between the return of a callback with that number and the lease of `entry_for`. -/
theorem entry_replies_exact {c : Config (service fs)} (hr : Run StableNumbers (start fs) c) :
    EntriesExact c := by
  have hholds : (rtLogic fs Env.resolving).Holds c :=
    holds_of_run False.elim False.elim (fun _ _ _ h => h) hr
  refine ⟨?_, ?_⟩
  · intro n t a ht hd
    have hfact : Fact Env.resolving t.id t.req a c.state := hholds.facts n t a ht hd
    exact hfact.1 trivial
  · intro n id req a ht hm
    obtain ⟨g, F, hpost, hi, hframe⟩ := hholds.thread ht
    have hi' : Inv Env.resolving c.state (view (g + F)) := hi
    rw [hi'.vanished] at hm
    -- the token says that this very thread found the node dead
    rcases Multiset.mem_add.mp (mem_view_vanished hm) with hg | hF
    · have hpost' : Post Env.resolving id req a g := hpost
      unfold Post at hpost'
      split at hpost'
      · obtain ⟨_, _, ⟨_, rfl⟩ | rfl⟩ := hpost'
        · exact absurd hg (Multiset.notMem_zero _)
        · cases Multiset.mem_singleton.mp hg
      · rcases hpost' with ⟨rfl, _⟩ | ⟨_, ha⟩
        · obtain ⟨i, _, heq⟩ := Multiset.mem_map.mp hg
          cases heq
        · exact ha
    · obtain ⟨m, hne, hown⟩ := hframe _ hF
      exact absurd hown.symm hne

/-- A lookup whose node is unlinked before `entry_for` leases it. -/
private def lostLookup : List (Action (service Sample.fs)) :=
  [Sample.lookup [97]] ++ Sample.steps 0 2 ++ [.issue (.treeOp (.unlink NodeId.ROOT [97]) {})] ++
    Sample.steps 1 1 ++ Sample.steps 0 1

/-- The lookup of a node that was unlinked in between is about to answer `ENOENT`. -/
theorem entry_replies_exact_lost : ∃ c : Config (service Sample.fs),
    Run StableNumbers (start Sample.fs) c ∧ c.state.hist.vanished = {0} ∧ EntriesExact c := by
  have hr : Run StableNumbers (start Sample.fs) (Sample.after Sample.stableCheck lostLookup) :=
    run_of_runs Sample.stableNumbers_of_check
      (show (start Sample.fs).runs Sample.stableCheck lostLookup = some _ from rfl)
  exact ⟨_, hr, by decide, entry_replies_exact hr⟩

/-- The number of a looked up node is used again before `entry_for` leases it. -/
private def replacedLookup : List (Action (service Sample.fs)) :=
  [Sample.lookup [97]] ++ Sample.steps 0 2 ++ [.issue (.treeOp (.unlink NodeId.ROOT [97]) {})] ++
    Sample.steps 1 1 ++ [Sample.lookup [98, 98]] ++ Sample.steps 2 1 ++ Sample.steps 0 3 ++
      [.answer 0]

/-- Without that condition a lookup can answer with a later node: it resolved generation `0` of
the inode and answers with generation `1` and with the attributes of another record. -/
theorem entry_replies_not_exact : ∃ c : Config (service Sample.fs),
    Run anyAction (start Sample.fs) c ∧
      ∃ t e, c.threads[0]? = some t ∧ t.phase = .done (.ok (.entry e)) ∧
        e.denoted = some (1, 0) ∧ e.leased = 2 ∧ e.reply.ino = 2 ∧ e.reply.generation = 1 ∧
        e.reply.attr.size = 2 ∧ ¬ EntriesExact c := by
  have hr : Run anyAction (start Sample.fs) (Sample.after Sample.anyCheck replacedLookup) :=
    run_of_runs Sample.anyAction_of_check
      (show (start Sample.fs).runs Sample.anyCheck replacedLookup = some _ from rfl)
  refine ⟨_, hr, _, _, rfl, rfl, rfl, rfl, rfl, rfl, rfl, ?_⟩
  intro h
  have hex := h.exact 0 _ _ rfl rfl
  cases hex

end TypedFuse
