import TypedFuse.Core.Runtime

/-!
# The life of a handle record

A handle record passes through five stages.  It is registered in the handle table; `release` moves
its `Arc` out of the table (`Stage.removed`); `close_and_take` stops new leases (`Stage.closing`)
and waits until the leases are gone (`Stage.drained`); finally the payload is moved out and the
handle counts as released.  The thread that removed the record from the table owns these stages
alone, which is why the payload is moved out once.

`Shares` counts who refers to a record and `CellOk` says what the record looks like under these
counts.  `HandleInv` is the invariant of all records; the lemmas after it treat one critical
section each.
-/

namespace TypedFuse

/-- How far the thread that removed a record from the table has closed it. -/
inductive Stage where
  /-- The record is out of the table and still grants leases. -/
  | removed
  /-- The record grants no more leases. -/
  | closing
  /-- The record has no leases left. -/
  | drained
  deriving DecidableEq

/-- What running threads own of the handle records: `Arc`s, leases (each with its `Arc`) and the
records they are closing (each with its `Arc`). -/
structure Owners where
  arcs : Multiset (HandleKind × ℕ)
  leases : Multiset (HandleKind × ℕ)
  closers : Multiset (HandleKind × ℕ × Stage)

/-- How often a record is referred to, by the way it is referred to. -/
structure Shares where
  table : ℕ
  arcs : ℕ
  leases : ℕ
  removed : ℕ
  closing : ℕ
  drained : ℕ
  released : ℕ

/-- What a record looks like under its shares. -/
structure CellOk {H : Type} (cell : HandleCell H) (sh : Shares) : Prop where
  /-- `active` is the number of leases. -/
  active : cell.active = sh.leases
  /-- The strong count. -/
  arcs : cell.arcs = sh.table + sh.arcs + sh.leases + (sh.removed + sh.closing + sh.drained)
  /-- The record is registered, or closed by one thread, or released. -/
  one : sh.table + (sh.removed + sh.closing + sh.drained) + sh.released = 1
  /-- `closing` is set by the thread that closes the record. -/
  closing : cell.closing = true ↔ 0 < sh.closing + sh.drained + sh.released
  /-- `taken` is set once the record is drained. -/
  taken : cell.taken = true ↔ 0 < sh.drained + sh.released
  /-- A drained record has no leases and gets none. -/
  drained : 0 < sh.drained + sh.released → sh.leases = 0
  /-- The payload is in place until it is released. -/
  payload : cell.payload.isSome = true ↔ sh.released = 0
  /-- `HandleRecord::drop` never finds a payload to drop. -/
  dropped : cell.dropped = false

variable {P : HandleKind → Type}

/-- The shares of a record. -/
def shares (hs : Handles P) (released : Multiset (ℕ × HandleKind × ℕ)) (o : Owners)
    (k : HandleKind) (a : ℕ) : Shares where
  table := if ((hs.table k).lookup a).isSome then 1 else 0
  arcs := o.arcs.count (k, a)
  leases := o.leases.count (k, a)
  removed := o.closers.count (k, a, .removed)
  closing := o.closers.count (k, a, .closing)
  drained := o.closers.count (k, a, .drained)
  released := released.countP fun x => x.2 = (k, a)

/-- One more closing thread at a stage. -/
def Shares.addCloser (sh : Shares) : Stage → Shares
  | .removed => { sh with removed := sh.removed + 1 }
  | .closing => { sh with closing := sh.closing + 1 }
  | .drained => { sh with drained := sh.drained + 1 }

/-! ## One record -/

namespace CellOk

variable {H : Type} {cell : HandleCell H} {sh : Shares}

/-- An `Arc` is cloned. -/
lemma clone (h : CellOk cell sh) :
    CellOk { cell with arcs := cell.arcs + 1 } { sh with arcs := sh.arcs + 1 } where
  active := h.active
  arcs := by
    have := h.arcs
    dsimp only
    omega
  one := h.one
  closing := h.closing
  taken := h.taken
  drained := h.drained
  payload := h.payload
  dropped := h.dropped

/-- The `Arc` of the table goes to a thread that closes the record. -/
lemma remove (h : CellOk cell sh) (ht : sh.table = 1) :
    CellOk cell (Shares.addCloser { sh with table := 0 } .removed) where
  active := h.active
  arcs := by
    have := h.arcs
    simp only [Shares.addCloser]
    omega
  one := by
    have := h.one
    simp only [Shares.addCloser]
    omega
  closing := h.closing
  taken := h.taken
  drained := h.drained
  payload := h.payload
  dropped := h.dropped

/-- A lease is granted while the record is not closing. -/
lemma acquire (h : CellOk cell sh) (hc : cell.closing = false) :
    CellOk { cell with active := cell.active + 1, arcs := cell.arcs + 1 }
      { sh with leases := sh.leases + 1 } where
  active := by
    have := h.active
    dsimp only
    omega
  arcs := by
    have := h.arcs
    dsimp only
    omega
  one := h.one
  closing := h.closing
  taken := h.taken
  drained := by
    intro hpos
    have hclosing := h.closing.mpr (by dsimp only at hpos; omega)
    rw [hc] at hclosing
    cases hclosing
  payload := h.payload
  dropped := h.dropped

/-- A lease is dropped; its `Arc` is still there. -/
lemma dropLease (h : CellOk cell { sh with leases := sh.leases + 1 }) :
    CellOk { cell with active := cell.active - 1 } { sh with arcs := sh.arcs + 1 } where
  active := by
    have := h.active
    dsimp only at this ⊢
    omega
  arcs := by
    have := h.arcs
    dsimp only at this ⊢
    omega
  one := h.one
  closing := h.closing
  taken := h.taken
  drained := by
    intro hpos
    have := h.drained hpos
    dsimp only at this
    omega
  payload := h.payload
  dropped := h.dropped

/-- An `Arc` is dropped.  If it is the last one, the payload has been taken. -/
lemma dropArc (h : CellOk cell { sh with arcs := sh.arcs + 1 }) :
    CellOk
      (if cell.arcs - 1 = 0 ∧ cell.taken = false then
        { cell with arcs := cell.arcs - 1, payload := none, dropped := true }
      else { cell with arcs := cell.arcs - 1 }) sh := by
  have harcs := h.arcs
  have hone := h.one
  dsimp only at harcs hone
  have hnot : ¬(cell.arcs - 1 = 0 ∧ cell.taken = false) := by
    rintro ⟨hlast, htaken⟩
    have := h.taken.mpr (by dsimp only; omega)
    rw [htaken] at this
    cases this
  rw [if_neg hnot]
  refine ⟨h.active, ?_, h.one, h.closing, h.taken, h.drained, h.payload, h.dropped⟩
  dsimp only
  omega

/-- `closing` is set while leases are left. -/
lemma close (h : CellOk cell (sh.addCloser .removed)) :
    CellOk { cell with closing := true } (sh.addCloser .closing) := by
  have harcs := h.arcs
  have hone := h.one
  simp only [Shares.addCloser] at harcs hone ⊢
  refine ⟨h.active, ?_, ?_, ?_, h.taken, h.drained, h.payload, h.dropped⟩
  · dsimp only
    omega
  · dsimp only
    omega
  · dsimp only
    exact ⟨fun _ => by omega, fun _ => rfl⟩

/-- The record has no leases left. -/
lemma drain (h : CellOk cell (sh.addCloser .closing)) (ha : cell.active = 0) :
    CellOk { cell with taken := true } (sh.addCloser .drained) := by
  have harcs := h.arcs
  have hone := h.one
  have hclosing := h.closing
  have hactive := h.active
  simp only [Shares.addCloser] at harcs hone hclosing hactive ⊢
  refine ⟨h.active, ?_, ?_, ?_, ?_, ?_, h.payload, h.dropped⟩
  · dsimp only
    omega
  · dsimp only
    omega
  · dsimp only
    exact ⟨fun _ => by omega, fun _ => hclosing.mpr (by omega)⟩
  · dsimp only
    exact ⟨fun _ => by omega, fun _ => rfl⟩
  · intro _
    dsimp only
    omega

/-- The payload is moved out; the `Arc` of the closing thread is still there. -/
lemma take (h : CellOk cell (sh.addCloser .drained)) :
    CellOk { cell with payload := (none : Option H) }
      { sh with released := sh.released + 1, arcs := sh.arcs + 1 } := by
  have harcs := h.arcs
  have hone := h.one
  have hclosing := h.closing
  have htaken := h.taken
  have hdrained := h.drained
  simp only [Shares.addCloser] at harcs hone hclosing htaken hdrained ⊢
  refine ⟨h.active, ?_, ?_, ?_, ?_, ?_, ?_, h.dropped⟩
  · dsimp only
    omega
  · dsimp only
    omega
  · exact ⟨fun _ => by dsimp only; omega, fun _ => hclosing.mpr (by omega)⟩
  · exact ⟨fun _ => by dsimp only; omega, fun _ => htaken.mpr (by omega)⟩
  · intro _
    exact hdrained (by omega)
  · simp

end CellOk

/-! ## All records -/

/-- What is true of the record `(k, a)`, which may not exist yet. -/
def RecordOk (hs : Handles P) (released : Multiset (ℕ × HandleKind × ℕ)) (o : Owners)
    (k : HandleKind) (a : ℕ) : Prop :=
  match (hs.cells k).lookup a with
  | some cell => CellOk cell (shares hs released o k a)
  | none => shares hs released o k a = ⟨0, 0, 0, 0, 0, 0, 0⟩

/-- The invariant of the handle records. -/
structure HandleInv (hs : Handles P) (h : History) (o : Owners)
    (took : Multiset (ℕ × HandleKind × ℕ)) : Prop where
  /-- The leases are those of the running threads. -/
  leases : h.handleLeases = o.leases
  /-- A thread that moved a payload out is recorded. -/
  took : ∀ x ∈ took, x ∈ h.released
  /-- A record is registered under its own number. -/
  table : ∀ k fh arc, (hs.table k).lookup fh = some arc → arc.addr = fh
  /-- The next number is fresh. -/
  fresh : ∀ k a, hs.nextFh ≤ a → (hs.cells k).lookup a = none
  /-- Every record. -/
  record : ∀ k a, RecordOk hs h.released o k a

namespace Handles

lemma lookup_setCell (hs : Handles P) (k : HandleKind) (a : ℕ) (cell : HandleCell (P k)) :
    ((hs.setCell k a cell).cells k).lookup a = some cell := by
  simp only [setCell, Function.update_self]
  exact Finmap.lookup_insert _

lemma lookup_setCell_ne (hs : Handles P) {k k' : HandleKind} {a a' : ℕ} (cell : HandleCell (P k))
    (h : (k', a') ≠ (k, a)) :
    ((hs.setCell k a cell).cells k').lookup a' = (hs.cells k').lookup a' := by
  by_cases hk : k' = k
  · subst hk
    have ha : a' ≠ a := fun ha => h (by rw [ha])
    simp only [setCell, Function.update_self]
    exact Finmap.lookup_insert_of_ne _ ha
  · simp only [setCell, Function.update_of_ne hk]

end Handles

section Counting

variable (hs : Handles P) (released : Multiset (ℕ × HandleKind × ℕ))
  (A L : Multiset (HandleKind × ℕ)) (C : Multiset (HandleKind × ℕ × Stage)) (st : Stage)
  {k k' : HandleKind} {a a' : ℕ} {n : ℕ}

lemma shares_arc : shares hs released ⟨(k, a) ::ₘ A, L, C⟩ k a =
    { shares hs released ⟨A, L, C⟩ k a with
      arcs := (shares hs released ⟨A, L, C⟩ k a).arcs + 1 } := by
  simp [shares]

lemma shares_arc_ne (hne : (k', a') ≠ (k, a)) :
    shares hs released ⟨(k, a) ::ₘ A, L, C⟩ k' a' =
      shares hs released ⟨A, L, C⟩ k' a' := by
  simp only [shares, Multiset.count_cons_of_ne hne]

lemma shares_lease : shares hs released ⟨A, (k, a) ::ₘ L, C⟩ k a =
    { shares hs released ⟨A, L, C⟩ k a with
      leases := (shares hs released ⟨A, L, C⟩ k a).leases + 1 } := by
  simp [shares]

lemma shares_lease_ne (hne : (k', a') ≠ (k, a)) :
    shares hs released ⟨A, (k, a) ::ₘ L, C⟩ k' a' =
      shares hs released ⟨A, L, C⟩ k' a' := by
  simp only [shares, Multiset.count_cons_of_ne hne]

lemma shares_closer : shares hs released ⟨A, L, (k, a, st) ::ₘ C⟩ k a =
    (shares hs released ⟨A, L, C⟩ k a).addCloser st := by
  cases st <;> simp [shares, Shares.addCloser]

lemma shares_closer_ne (hne : (k', a') ≠ (k, a)) :
    shares hs released ⟨A, L, (k, a, st) ::ₘ C⟩ k' a' =
      shares hs released ⟨A, L, C⟩ k' a' := by
  have hst : ∀ st', (k', a', st') ≠ (k, a, st) := by
    intro st' heq
    simp only [Prod.mk.injEq] at heq
    exact hne (by rw [heq.1, heq.2.1])
  simp only [shares, Multiset.count_cons_of_ne (hst _)]

lemma shares_released (o : Owners) : shares hs ((n, k, a) ::ₘ released) o k a =
    { shares hs released o k a with released := (shares hs released o k a).released + 1 } := by
  simp [shares]

lemma shares_released_ne (o : Owners) (hne : (k', a') ≠ (k, a)) :
    shares hs ((n, k, a) ::ₘ released) o k' a' = shares hs released o k' a' := by
  simp only [shares, Multiset.countP_cons, Ne.symm hne, if_false, add_zero]

end Counting

namespace HandleInv

variable {hs hs' : Handles P} {h h' : History} {o o' : Owners}
  {A L : Multiset (HandleKind × ℕ)} {C : Multiset (HandleKind × ℕ × Stage)}
  {took took' : Multiset (ℕ × HandleKind × ℕ)} {k : HandleKind} {a : ℕ}

/-- History that does not concern handles may change. -/
lemma congr (hi : HandleInv hs h o took) (hl : h'.handleLeases = h.handleLeases)
    (hr : h'.released = h.released) : HandleInv hs h' o took :=
  ⟨hl.trans hi.leases, hr ▸ hi.took, hi.table, hi.fresh, hr ▸ hi.record⟩

/-- A record that somebody refers to exists. -/
lemma cell (hi : HandleInv hs h o took)
    (hne : shares hs h.released o k a ≠ ⟨0, 0, 0, 0, 0, 0, 0⟩) :
    ∃ cell, (hs.cells k).lookup a = some cell ∧ CellOk cell (shares hs h.released o k a) := by
  have hrec := hi.record k a
  unfold RecordOk at hrec
  split at hrec
  · next c hc => exact ⟨c, hc, hrec⟩
  · exact absurd hrec hne

/-- The record behind an `Arc` that a thread owns. -/
lemma cell_of_arc (hi : HandleInv hs h o took) (hm : (k, a) ∈ o.arcs) :
    ∃ cell, (hs.cells k).lookup a = some cell ∧ CellOk cell (shares hs h.released o k a) := by
  refine hi.cell ?_
  intro heq
  have hpos := Multiset.count_pos.mpr hm
  have : o.arcs.count (k, a) = 0 := congrArg Shares.arcs heq
  omega

/-- The record behind a lease that a thread owns. -/
lemma cell_of_lease (hi : HandleInv hs h o took) (hm : (k, a) ∈ o.leases) :
    ∃ cell, (hs.cells k).lookup a = some cell ∧ CellOk cell (shares hs h.released o k a) := by
  refine hi.cell ?_
  intro heq
  have hpos := Multiset.count_pos.mpr hm
  have : o.leases.count (k, a) = 0 := congrArg Shares.leases heq
  omega

/-- The record that a thread is closing. -/
lemma cell_of_closer (hi : HandleInv hs h o took) {st : Stage} (hm : (k, a, st) ∈ o.closers) :
    ∃ cell, (hs.cells k).lookup a = some cell ∧ CellOk cell (shares hs h.released o k a) := by
  refine hi.cell ?_
  intro heq
  have hpos := Multiset.count_pos.mpr hm
  cases st with
  | removed =>
    have : o.closers.count (k, a, .removed) = 0 := congrArg Shares.removed heq
    omega
  | closing =>
    have : o.closers.count (k, a, .closing) = 0 := congrArg Shares.closing heq
    omega
  | drained =>
    have : o.closers.count (k, a, .drained) = 0 := congrArg Shares.drained heq
    omega

/-- A registered record exists. -/
lemma cell_of_table (hi : HandleInv hs h o took) {arc : HandleArc}
    (ht : (hs.table k).lookup a = some arc) :
    ∃ cell, (hs.cells k).lookup a = some cell ∧ CellOk cell (shares hs h.released o k a) := by
  refine hi.cell ?_
  intro heq
  have hz : (shares hs h.released o k a).table = 0 := congrArg Shares.table heq
  simp [shares, ht] at hz

lemma fresh_lt (hi : HandleInv hs h o took) {c : HandleCell (P k)}
    (hc : (hs.cells k).lookup a = some c) : a < hs.nextFh := by
  by_contra hlt
  rw [hi.fresh k a (by omega)] at hc
  cases hc

/-- A section that touches the record `(k, a)` only keeps the invariant if the record is as its new
shares say. -/
lemma update (hi : HandleInv hs h o took) {c : HandleCell (P k)} (ha : a < hs'.nextFh)
    (hleases : h'.handleLeases = o'.leases) (hrel : ∀ x ∈ took', x ∈ h'.released)
    (htable : ∀ k fh arc, (hs'.table k).lookup fh = some arc → arc.addr = fh)
    (hnext : hs.nextFh ≤ hs'.nextFh) (hself : (hs'.cells k).lookup a = some c)
    (hother : ∀ k' a', (k', a') ≠ (k, a) → (hs'.cells k').lookup a' = (hs.cells k').lookup a')
    (hshares : ∀ k' a', (k', a') ≠ (k, a) →
      shares hs' h'.released o' k' a' = shares hs h.released o k' a')
    (hok : CellOk c (shares hs' h'.released o' k a)) : HandleInv hs' h' o' took' where
  leases := hleases
  took := hrel
  table := htable
  fresh := by
    intro k' a' hle
    by_cases heq : (k', a') = (k, a)
    · obtain ⟨rfl, rfl⟩ := Prod.mk.inj heq
      omega
    · rw [hother k' a' heq]
      exact hi.fresh k' a' (by omega)
  record := by
    intro k' a'
    by_cases heq : (k', a') = (k, a)
    · obtain ⟨rfl, rfl⟩ := Prod.mk.inj heq
      unfold RecordOk
      rw [hself]
      exact hok
    · have hrec := hi.record k' a'
      unfold RecordOk at hrec ⊢
      rw [hother k' a' heq, hshares k' a' heq]
      exact hrec

/-- The special case of `update` for sections that write a record and leave the table alone. -/
lemma setCell (hi : HandleInv hs h o took) {c : HandleCell (P k)} (ha : a < hs.nextFh)
    (hleases : h'.handleLeases = o'.leases) (hrel : ∀ x ∈ took', x ∈ h'.released)
    (hshares : ∀ k' a', (k', a') ≠ (k, a) →
      shares hs h'.released o' k' a' = shares hs h.released o k' a')
    (hok : CellOk c (shares hs h'.released o' k a)) :
    HandleInv (hs.setCell k a c) h' o' took' :=
  hi.update ha hleases hrel hi.table le_rfl (hs.lookup_setCell k a c)
    (fun _ _ hne => hs.lookup_setCell_ne c hne) hshares hok

/-- A new record under a fresh number is as its shares say. -/
private lemma cellOk_new (hi : HandleInv hs h o took) {payload : P k}
    (hnone : (hs.cells k).lookup a = none) (hr : h'.released = h.released)
    (ht : ((hs'.table k).lookup a).isSome = true) :
    CellOk (HandleCell.new payload) (shares hs' h'.released o k a) := by
  have hzero : shares hs h.released o k a = ⟨0, 0, 0, 0, 0, 0, 0⟩ := by
    have hrec := hi.record k a
    unfold RecordOk at hrec
    rwa [hnone] at hrec
  have hsh : shares hs' h'.released o k a = ⟨1, 0, 0, 0, 0, 0, 0⟩ := by
    simp only [shares, Shares.mk.injEq] at hzero
    simp only [shares, ht, hr, if_true, hzero]
  rw [hsh]
  exact ⟨rfl, rfl, rfl, by simp [HandleCell.new], by simp [HandleCell.new], by simp,
    by simp [HandleCell.new], rfl⟩

/-- Registering a handle. -/
lemma add (hi : HandleInv hs h o took) {node : NodeId} {payload : P k} {fh : ℕ}
    (hadd : hs.add k node payload = some (fh, hs')) (hl : h'.handleLeases = h.handleLeases)
    (hr : h'.released = h.released) : HandleInv hs' h' o took := by
  unfold Handles.add at hadd
  split at hadd
  · obtain ⟨rfl, rfl⟩ := Prod.mk.inj (Option.some.inj hadd)
    have hnone : (hs.cells k).lookup hs.nextFh = none := hi.fresh k hs.nextFh le_rfl
    refine hi.update (k := k) (a := hs.nextFh) (c := HandleCell.new payload) (Nat.lt_succ_self _)
      (hl.trans hi.leases) (hr ▸ hi.took) ?_ (Nat.le_succ _) (hs.lookup_setCell k _ _)
      (fun _ _ hne => hs.lookup_setCell_ne _ hne) ?_ ?_
    · intro k' fh' arc hlk
      by_cases hk : k' = k
      · subst hk
        simp only [Function.update_self] at hlk
        rw [BTreeMap.lookup_insert_ite] at hlk
        split at hlk
        · next hfh =>
          obtain rfl := Option.some.inj hlk
          exact hfh.symm
        · exact hi.table k' fh' arc hlk
      · simp only [Function.update_of_ne hk] at hlk
        exact hi.table k' fh' arc hlk
    · intro k' a' hne
      have htab : (Function.update hs.table k
          ((hs.table k).insert hs.nextFh ⟨hs.nextFh, node⟩) k').lookup a' =
          (hs.table k').lookup a' := by
        by_cases hk : k' = k
        · subst hk
          have ha : a' ≠ hs.nextFh := fun ha => hne (by rw [ha])
          rw [Function.update_self, BTreeMap.lookup_insert_ite, if_neg ha]
        · rw [Function.update_of_ne hk]
      simp only [shares, htab, hr]
    · refine hi.cellOk_new hnone hr ?_
      simp only [Function.update_self, BTreeMap.lookup_insert_ite, if_true, Option.isSome_some]
  · cases hadd

/-- Cloning the registered `Arc`. -/
lemma find (hi : HandleInv hs h ⟨A, L, C⟩ took) {fh : ℕ} {arc : HandleArc}
    (hfind : hs.find k fh = some (some arc, hs')) :
    arc.addr = fh ∧ HandleInv hs' h ⟨(k, fh) ::ₘ A, L, C⟩ took := by
  unfold Handles.find at hfind
  split at hfind
  · cases (Prod.mk.inj (Option.some.inj hfind)).1
  · next arc' ht =>
    split at hfind
    · next cell hcell =>
      obtain ⟨harc, rfl⟩ := Prod.mk.inj (Option.some.inj hfind)
      obtain rfl := Option.some.inj harc
      obtain rfl : arc'.addr = fh := hi.table k fh arc' ht
      refine ⟨rfl, ?_⟩
      obtain ⟨cell', hcell', hok⟩ := hi.cell_of_table ht
      obtain rfl : cell = cell' := Option.some.inj (hcell.symm.trans hcell')
      refine hi.setCell (hi.fresh_lt hcell) hi.leases hi.took ?_ ?_
      · intro k' a' hne
        exact shares_arc_ne _ _ _ _ _ hne
      · rw [shares_arc]
        exact hok.clone
    · cases hfind

/-- Moving the registered `Arc` out of the table. -/
lemma remove (hi : HandleInv hs h ⟨A, L, C⟩ took) {ino fh : ℕ} {arc : HandleArc}
    (hrem : hs.remove k ino fh = (some arc, hs')) (hl : h'.handleLeases = h.handleLeases)
    (hr : h'.released = h.released) :
    arc.addr = fh ∧ HandleInv hs' h' ⟨A, L, (k, fh, .removed) ::ₘ C⟩ took := by
  unfold Handles.remove at hrem
  split at hrem
  · cases (Prod.mk.inj hrem).1
  · next arc' ht =>
    split at hrem
    · obtain ⟨harc, rfl⟩ := Prod.mk.inj hrem
      obtain rfl := Option.some.inj harc
      obtain rfl : arc'.addr = fh := hi.table k fh arc' ht
      refine ⟨rfl, ?_⟩
      obtain ⟨cell, hcell, hok⟩ := hi.cell_of_table ht
      have htab : ∀ k' a', (Function.update hs.table k ((hs.table k).erase arc'.addr)
            k').lookup a' =
          if (k', a') = (k, arc'.addr) then none else (hs.table k').lookup a' := by
        intro k' a'
        by_cases hk : k' = k
        · subst hk
          rw [Function.update_self, BTreeMap.lookup_erase_ite]
          simp
        · rw [Function.update_of_ne hk, if_neg (by simp [hk])]
      refine hi.update (hi.fresh_lt hcell) (hl.trans hi.leases) (hr ▸ hi.took) ?_ le_rfl hcell
        (fun _ _ _ => rfl) ?_ ?_
      · intro k' fh' arc hlk
        dsimp only at hlk
        rw [htab] at hlk
        split at hlk
        · cases hlk
        · exact hi.table k' fh' arc hlk
      · intro k' a' hne
        rw [shares_closer_ne _ _ _ _ _ _ hne]
        simp only [shares, htab, if_neg hne, hr]
      · rw [shares_closer, hr]
        have hsh := hok.remove (by simp [shares, ht])
        simp only [shares, htab, if_true, Option.isSome_none, Bool.false_eq_true,
          if_false] at hsh ⊢
        exact hsh
    · cases (Prod.mk.inj hrem).1

/-- What `acquire` answers: a lease, unless the record is closing. -/
lemma acquire (hi : HandleInv hs h ⟨(k, a) ::ₘ A, L, C⟩ took) {granted : Bool}
    (hacq : hs.acquire k a = some (granted, hs'))
    (hl : h'.handleLeases = if granted then (k, a) ::ₘ h.handleLeases else h.handleLeases)
    (hr : h'.released = h.released) :
    HandleInv hs' h' ⟨(k, a) ::ₘ A, if granted then (k, a) ::ₘ L else L, C⟩ took := by
  obtain ⟨cell, hcell, hok⟩ := hi.cell_of_arc (Multiset.mem_cons_self _ _)
  unfold Handles.acquire at hacq
  rw [hcell] at hacq
  dsimp only at hacq
  split at hacq
  · obtain ⟨rfl, rfl⟩ := Prod.mk.inj (Option.some.inj hacq)
    exact hi.congr hl hr
  · next hclosing =>
    split at hacq
    · obtain ⟨rfl, rfl⟩ := Prod.mk.inj (Option.some.inj hacq)
      refine hi.setCell (hi.fresh_lt hcell) ?_ (hr ▸ hi.took) ?_ ?_
      · rw [hl, hi.leases]
      · intro k' a' hne
        rw [hr]
        exact shares_lease_ne _ _ _ _ _ hne
      · rw [hr]
        have hsh := shares_lease hs h.released ((k, a) ::ₘ A) L C (k := k) (a := a)
        exact hsh ▸ hok.acquire (by simpa using hclosing)
    · cases hacq

/-- The payload is in place behind a lease, and the record is not taken. -/
lemma deref (hi : HandleInv hs h ⟨A, (k, a) ::ₘ L, C⟩ took) :
    ∃ cell, (hs.cells k).lookup a = some cell ∧ cell.payload.isSome = true ∧
      cell.taken = false := by
  obtain ⟨cell, hcell, hok⟩ := hi.cell_of_lease (Multiset.mem_cons_self _ _)
  rw [shares_lease] at hok
  have hnd : ¬ 0 < (shares hs h.released ⟨A, L, C⟩ k a).drained +
      (shares hs h.released ⟨A, L, C⟩ k a).released := by
    intro hd
    have := hok.drained hd
    dsimp only at this
    omega
  refine ⟨cell, hcell, hok.payload.mpr (by dsimp only; omega), ?_⟩
  cases ht : cell.taken with
  | false => rfl
  | true => exact absurd (hok.taken.mp ht) hnd

/-- Dropping a lease. -/
lemma dropLease (hi : HandleInv hs h ⟨A, (k, a) ::ₘ L, C⟩ took)
    (hd : hs.dropLease k a = some hs') (hl : h'.handleLeases = h.handleLeases.erase (k, a))
    (hr : h'.released = h.released) : HandleInv hs' h' ⟨(k, a) ::ₘ A, L, C⟩ took := by
  obtain ⟨cell, hcell, hok⟩ := hi.cell_of_lease (Multiset.mem_cons_self _ _)
  unfold Handles.dropLease at hd
  rw [hcell] at hd
  obtain rfl := Option.some.inj hd
  rw [shares_lease] at hok
  refine hi.setCell (hi.fresh_lt hcell) ?_ (hr ▸ hi.took) ?_ ?_
  · rw [hl, hi.leases, Multiset.erase_cons_head]
  · intro k' a' hne
    rw [hr, shares_arc_ne _ _ _ _ _ hne, shares_lease_ne _ _ _ _ _ hne]
  · rw [hr, shares_arc]
    exact hok.dropLease

/-- Dropping an `Arc`. -/
lemma dropArc (hi : HandleInv hs h ⟨(k, a) ::ₘ A, L, C⟩ took) (hd : hs.dropArc k a = some hs')
    (hl : h'.handleLeases = h.handleLeases) (hr : h'.released = h.released) :
    HandleInv hs' h' ⟨A, L, C⟩ took := by
  obtain ⟨cell, hcell, hok⟩ := hi.cell_of_arc (Multiset.mem_cons_self _ _)
  unfold Handles.dropArc at hd
  rw [hcell] at hd
  obtain rfl := Option.some.inj hd
  rw [shares_arc] at hok
  refine hi.setCell (hi.fresh_lt hcell) (hl.trans hi.leases) (hr ▸ hi.took) ?_ ?_
  · intro k' a' hne
    rw [hr, shares_arc_ne _ _ _ _ _ hne]
  · rw [hr]
    exact hok.dropArc

/-- Setting `closing`: the record is drained at once or will be. -/
lemma close (hi : HandleInv hs h ⟨A, L, (k, a, .removed) ::ₘ C⟩ took) {drained : Bool}
    (hc : hs.close k a = some (drained, hs')) :
    HandleInv hs' h ⟨A, L, (k, a, if drained then .drained else .closing) ::ₘ C⟩ took := by
  obtain ⟨cell, hcell, hok⟩ := hi.cell_of_closer (Multiset.mem_cons_self _ _)
  unfold Handles.close at hc
  rw [hcell, Option.map_some] at hc
  rw [shares_closer] at hok
  have hother : ∀ st k' a', (k', a') ≠ (k, a) →
      shares hs h.released ⟨A, L, (k, a, st) ::ₘ C⟩ k' a' =
        shares hs h.released ⟨A, L, (k, a, .removed) ::ₘ C⟩ k' a' := by
    intro st k' a' hne
    rw [shares_closer_ne _ _ _ _ _ _ hne, shares_closer_ne _ _ _ _ _ _ hne]
  split at hc
  · next hactive =>
    obtain ⟨rfl, rfl⟩ := Prod.mk.inj (Option.some.inj hc)
    refine hi.setCell (hi.fresh_lt hcell) hi.leases hi.took (hother _) ?_
    rw [shares_closer]
    exact hok.close.drain hactive
  · obtain ⟨rfl, rfl⟩ := Prod.mk.inj (Option.some.inj hc)
    refine hi.setCell (hi.fresh_lt hcell) hi.leases hi.took (hother _) ?_
    rw [shares_closer]
    exact hok.close

/-- The wait for the leases is over. -/
lemma drain (hi : HandleInv hs h ⟨A, L, (k, a, .closing) ::ₘ C⟩ took)
    (hd : hs.drain k a = some hs') : HandleInv hs' h ⟨A, L, (k, a, .drained) ::ₘ C⟩ took := by
  obtain ⟨cell, hcell, hok⟩ := hi.cell_of_closer (Multiset.mem_cons_self _ _)
  unfold Handles.drain at hd
  rw [hcell] at hd
  dsimp only at hd
  rw [shares_closer] at hok
  split at hd
  · next hactive =>
    obtain rfl := Option.some.inj hd
    refine hi.setCell (hi.fresh_lt hcell) hi.leases hi.took ?_ ?_
    · intro k' a' hne
      rw [shares_closer_ne _ _ _ _ _ _ hne, shares_closer_ne _ _ _ _ _ _ hne]
    · rw [shares_closer]
      exact hok.drain hactive
  · cases hd

/-- The record that a thread has drained: closed, without leases, its payload in place. -/
lemma drained (hi : HandleInv hs h ⟨A, L, (k, a, .drained) ::ₘ C⟩ took) :
    ∃ cell, (hs.cells k).lookup a = some cell ∧ cell.closing = true ∧ cell.active = 0 ∧
      cell.payload.isSome = true ∧ L.count (k, a) = 0 ∧
      h.released.countP (fun x => x.2 = (k, a)) = 0 := by
  obtain ⟨cell, hcell, hok⟩ := hi.cell_of_closer (Multiset.mem_cons_self _ _)
  rw [shares_closer] at hok
  have hone := hok.one
  simp only [Shares.addCloser] at hone
  have hrel : (shares hs h.released ⟨A, L, C⟩ k a).released = 0 := by omega
  have hleases := hok.drained (by simp only [Shares.addCloser]; omega)
  exact ⟨cell, hcell, hok.closing.mpr (by simp only [Shares.addCloser]; omega),
    hok.active.trans hleases, hok.payload.mpr hrel, hleases, hrel⟩

/-- Moving the payload out. -/
lemma take (hi : HandleInv hs h ⟨A, L, (k, a, .drained) ::ₘ C⟩ took) {n : ℕ} {payload : P k}
    (ht : hs.take k a = some (payload, hs')) (hl : h'.handleLeases = h.handleLeases)
    (hr : h'.released = (n, k, a) ::ₘ h.released) :
    HandleInv hs' h' ⟨(k, a) ::ₘ A, L, C⟩ ((n, k, a) ::ₘ took) := by
  obtain ⟨cell, hcell, hok⟩ := hi.cell_of_closer (Multiset.mem_cons_self _ _)
  unfold Handles.take at ht
  rw [hcell] at ht
  dsimp only at ht
  rw [shares_closer] at hok
  split at ht
  · obtain ⟨rfl, rfl⟩ := Prod.mk.inj (Option.some.inj ht)
    refine hi.setCell (hi.fresh_lt hcell) (hl.trans hi.leases) ?_ ?_ ?_
    · intro x hx
      rw [hr]
      rcases Multiset.mem_cons.mp hx with rfl | hx
      · exact Multiset.mem_cons_self _ _
      · exact Multiset.mem_cons_of_mem (hi.took x hx)
    · intro k' a' hne
      rw [hr, shares_arc_ne _ _ _ _ _ hne, shares_released_ne _ _ _ hne,
        shares_closer_ne _ _ _ _ _ _ hne]
    · rw [hr, shares_arc, shares_released]
      exact hok.take
  · cases ht

/-- A payload is moved out at most once. -/
lemma released_le_one (hi : HandleInv hs h o took) (k : HandleKind) (a : ℕ) :
    h.released.countP (fun x => x.2 = (k, a)) ≤ 1 := by
  have hrec := hi.record k a
  unfold RecordOk at hrec
  split at hrec
  · have hone := hrec.one
    have hrel : (shares hs h.released o k a).released =
      h.released.countP (fun x => x.2 = (k, a)) := rfl
    omega
  · have hz : h.released.countP (fun x => x.2 = (k, a)) = 0 := congrArg Shares.released hrec
    omega

/-- The next number is not registered. -/
lemma table_fresh (hi : HandleInv hs h o took) (k : HandleKind) :
    (hs.table k).lookup hs.nextFh = none := by
  cases ht : (hs.table k).lookup hs.nextFh with
  | none => rfl
  | some arc =>
    obtain ⟨cell, hcell, _⟩ := hi.cell_of_table ht
    exact absurd (hi.fresh_lt hcell) (lt_irrefl _)

end HandleInv

/-! ## Registered handles -/

namespace Handles

/-- The number of entries of one handle table that belong to an inode. -/
private lemma registered_update (hs : Handles P) (k : HandleKind) (m : BTreeMap ℕ HandleArc)
    (cells : (k : HandleKind) → BTreeMap ℕ (HandleCell (P k))) (nextFh ino d d' : ℕ)
    (h : m.countWhere (fun _ arc => arc.node = ino) + d =
      (hs.table k).countWhere (fun _ arc => arc.node = ino) + d') :
    Handles.registered ⟨Function.update hs.table k m, nextFh, cells⟩ ino + d =
      hs.registered ino + d' := by
  unfold registered
  cases k with
  | file =>
    have hne : HandleKind.dir ≠ HandleKind.file := by decide
    simp only [Function.update_self, Function.update_of_ne hne]
    omega
  | dir =>
    have hne : HandleKind.file ≠ HandleKind.dir := by decide
    simp only [Function.update_self, Function.update_of_ne hne]
    omega

/-- Registering a handle. -/
lemma registered_add {hs hs' : Handles P} {k : HandleKind} {node : NodeId} {payload : P k}
    {fh : ℕ} (hfresh : (hs.table k).lookup hs.nextFh = none)
    (h : hs.add k node payload = some (fh, hs')) (ino : ℕ) :
    hs'.registered ino = hs.registered ino + if node = ino then 1 else 0 := by
  unfold add at h
  split at h
  · obtain ⟨_, rfl⟩ := Prod.mk.inj (Option.some.inj h)
    refine hs.registered_update k _ _ _ ino 0 _ ?_
    rw [BTreeMap.countWhere_insert hfresh]
    simp
  · cases h

/-- Removing a handle. -/
lemma registered_remove {hs hs' : Handles P} {k : HandleKind} {ino fh : ℕ} {arc : HandleArc}
    (h : hs.remove k ino fh = (some arc, hs')) (i : ℕ) :
    hs'.registered i + (if ino = i then 1 else 0) = hs.registered i := by
  unfold remove at h
  split at h
  · cases (Prod.mk.inj h).1
  · next arc' ht =>
    split at h
    · next hnode =>
      obtain ⟨_, rfl⟩ := Prod.mk.inj h
      refine hs.registered_update k _ _ _ i _ 0 ?_
      rw [← BTreeMap.countWhere_erase ht, hnode]
      simp
    · cases (Prod.mk.inj h).1

/-- `acquire` leaves the tables alone. -/
lemma registered_acquire {hs hs' : Handles P} {k : HandleKind} {a : ℕ} {granted : Bool}
    (h : hs.acquire k a = some (granted, hs')) (ino : ℕ) :
    hs'.registered ino = hs.registered ino := by
  unfold acquire at h
  split at h
  · cases h
  · split at h
    · obtain ⟨_, rfl⟩ := Prod.mk.inj (Option.some.inj h)
      rfl
    · split at h
      · obtain ⟨_, rfl⟩ := Prod.mk.inj (Option.some.inj h)
        rfl
      · cases h

/-- `find` leaves the tables alone. -/
lemma find_table {hs hs' : Handles P} {k : HandleKind} {fh : ℕ} {r : Option HandleArc}
    (h : hs.find k fh = some (r, hs')) : hs'.table = hs.table := by
  unfold find at h
  split at h
  · obtain ⟨_, rfl⟩ := Prod.mk.inj (Option.some.inj h)
    rfl
  · split at h
    · obtain ⟨_, rfl⟩ := Prod.mk.inj (Option.some.inj h)
      rfl
    · cases h

/-- `find` that finds nothing changes nothing. -/
lemma find_none {hs hs' : Handles P} {k : HandleKind} {fh : ℕ}
    (h : hs.find k fh = some (none, hs')) : hs' = hs := by
  unfold find at h
  split at h
  · exact (Prod.mk.inj (Option.some.inj h)).2.symm
  · split at h
    · cases (Prod.mk.inj (Option.some.inj h)).1
    · cases h

/-- `remove` that finds nothing changes nothing. -/
lemma remove_none {hs hs' : Handles P} {k : HandleKind} {ino fh : ℕ}
    (h : hs.remove k ino fh = (none, hs')) : hs' = hs := by
  unfold remove at h
  split at h
  · exact (Prod.mk.inj h).2.symm
  · split at h
    · cases (Prod.mk.inj h).1
    · exact (Prod.mk.inj h).2.symm

end Handles

end TypedFuse
