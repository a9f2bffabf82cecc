import TypedFuse.Core.Frame

/-!
# Reclaiming a node

A section reclaims at most one slot, and it does so exactly if it gives back the last reference of
a live node.  `RtInstr.Reclaims` is this condition on the instruction and the table before it, and
`NoReclaim` allows the steps that do not meet it.
-/

namespace TypedFuse

open Conc Conc.Service NodeTable TypedFuse.Runtime

namespace NodeTable

variable {N : Type}

/-- Giving back `m` references of a kind leaves a live slot without references. -/
def Frees (t : NodeTable N) (c : Counter) (m : ℕ) (id : NodeId) : Prop :=
  ∃ sl, t.slot id = some sl ∧ (sl.setCounter (sl.counter c - m) c).droppable = true

/-- Dropping a `NodeRef` leaves its node without references. -/
def FreesRef (t : NodeTable N) (r : NodeRef N) : Prop :=
  t.Frees .leases 1 r.id ∧ ∀ sl, t.slot r.id = some sl → sl.record.addr = r.record.addr

/-- Nothing is reclaimed: all live slots stay, as the same nodes. -/
structure Spares (t t' : NodeTable N) : Prop where
  reclaimed : t'.reclaimed = t.reclaimed
  live : ∀ i sl, t.slot i = some sl → ∃ sl', t'.slot i = some sl' ∧ sl'.record = sl.record

/-- A live slot is reclaimed. -/
def Loses (t t' : NodeTable N) : Prop :=
  ∃ i sl sl', t.slot i = some sl ∧ sl'.record = sl.record ∧
    t'.reclaimed = (i, sl') :: t.reclaimed ∧ t'.slot i = none

lemma Spares.refl (t : NodeTable N) : Spares t t :=
  ⟨rfl, fun _ sl hsl => ⟨sl, hsl, rfl⟩⟩

lemma Spares.incr {t t' : NodeTable N} {c : Counter} {id : NodeId} {r : Option (Slot N)}
    (h : t.incr c id = some (r, t')) : Spares t t' := by
  constructor
  · rcases incr_cases h with ⟨_, _, rfl⟩ | ⟨s, _, _, rfl⟩
    · rfl
    · rfl
  · intro i sl hsl
    refine ⟨if i = id then sl.setCounter (sl.counter c + 1) c else sl, ?_, ?_⟩
    · rw [slot_incr h, hsl, Option.map_some]
    · split
      · exact Slot.setCounter_record _ _ _
      · rfl

lemma Spares.reparent (t : NodeTable N) (id newParent : NodeId) :
    Spares t (t.reparent id newParent) := by
  constructor
  · unfold NodeTable.reparent
    split
    · rfl
    · rfl
  · intro i sl hsl
    refine ⟨if i = id then { sl with parent := newParent } else sl, ?_, ?_⟩
    · rw [slot_reparent, hsl, Option.map_some]
    · split
      · rfl
      · rfl

lemma Spares.insert {t t' : NodeTable N} (hwf : t.WF) {payload : N} {parent id : NodeId}
    (h : t.insert payload parent = some (id, t')) : Spares t t' := by
  have hdead := hwf.insert_dead h
  constructor
  · obtain ⟨gen, t₁, ha, rfl⟩ := insert_cases h
    rcases alloc_cases ha with ⟨_, _, rfl⟩ | ⟨_, _, _, rfl⟩
    · rfl
    · rfl
  · obtain ⟨gen, hslot⟩ := slot_insert h
    intro i sl hsl
    have hne : i ≠ id := by
      rintro rfl
      rw [hdead] at hsl
      cases hsl
    exact ⟨sl, by rw [hslot, if_neg hne, hsl], rfl⟩

/-- `decr` reclaims the slot exactly if it takes its last reference. -/
lemma decr_cases (t : NodeTable N) (c : Counter) (m : ℕ) (id : NodeId) :
    (¬ t.Frees c m id ∧ Spares t (t.decr c m id)) ∨
    (t.Frees c m id ∧ Loses t (t.decr c m id)) := by
  cases hs : t.slot id with
  | none =>
    refine Or.inl ⟨?_, ?_⟩
    · rintro ⟨sl, hsl, _⟩
      rw [hs] at hsl
      cases hsl
    · have heq : t.decr c m id = t := by
        unfold NodeTable.decr NodeTable.maybeDrop
        simp only [hs]
      rw [heq]
      exact .refl t
  | some sl =>
    have hset : (t.set id (sl.setCounter (sl.counter c - m) c)).slot id =
        some (sl.setCounter (sl.counter c - m) c) := by
      rw [slot_set, if_pos rfl]
    have heq : t.decr c m id = (t.set id (sl.setCounter (sl.counter c - m) c)).maybeDrop id := by
      unfold NodeTable.decr
      rw [hs]
    by_cases hd : (sl.setCounter (sl.counter c - m) c).droppable = true
    · refine Or.inr ⟨⟨sl, hs, hd⟩, id, sl, sl.setCounter (sl.counter c - m) c, hs,
        Slot.setCounter_record sl _ c, ?_, ?_⟩
      · rw [heq]
        unfold NodeTable.maybeDrop
        simp only [hset, hd, if_true]
        rfl
      · rw [heq]
        unfold NodeTable.maybeDrop
        simp only [hset, hd, if_true]
        exact (BTreeMap.lookup_erase_ite _ id id).trans (if_pos rfl)
    · have hkeep : (t.set id (sl.setCounter (sl.counter c - m) c)).maybeDrop id =
          t.set id (sl.setCounter (sl.counter c - m) c) := by
        unfold NodeTable.maybeDrop
        simp only [hset, hd, if_false, Bool.false_eq_true]
      refine Or.inl ⟨?_, ?_⟩
      · rintro ⟨sl', hsl', hd'⟩
        rw [hs] at hsl'
        obtain rfl := Option.some.inj hsl'
        exact hd hd'
      · rw [heq, hkeep]
        refine ⟨rfl, ?_⟩
        intro i sl' hsl'
        rw [slot_set]
        split
        · next hi =>
          rw [hi, hs] at hsl'
          obtain rfl := Option.some.inj hsl'
          exact ⟨_, rfl, Slot.setCounter_record sl _ c⟩
        · exact ⟨sl', hsl', rfl⟩

/-- Dropping a `NodeRef` reclaims the slot exactly if it was the last reference. -/
lemma dropRef_cases {t : NodeTable N} (hwf : t.WF) (r : NodeRef N) :
    (¬ t.FreesRef r ∧ Spares t (t.dropRef r)) ∨ (t.FreesRef r ∧ Loses t (t.dropRef r)) := by
  have hsame : t.dropRef r = t.maybeDrop r.id → t.dropRef r = t := by
    intro h
    rw [h, hwf.maybeDrop_eq]
  cases hs : t.slot r.id with
  | none =>
    refine Or.inl ⟨?_, ?_⟩
    · rintro ⟨⟨sl, hsl, _⟩, _⟩
      rw [hs] at hsl
      cases hsl
    · rw [hsame (by unfold NodeTable.dropRef; rw [hs])]
      exact .refl t
  | some sl =>
    by_cases haddr : sl.record.addr = r.record.addr
    · rw [dropRef_eq_decr hs haddr]
      rcases decr_cases t .leases 1 r.id with ⟨hnot, hspares⟩ | ⟨hfrees, hloses⟩
      · exact Or.inl ⟨fun h => hnot h.1, hspares⟩
      · refine Or.inr ⟨⟨hfrees, ?_⟩, hloses⟩
        intro sl' hsl'
        rw [hs] at hsl'
        rw [← Option.some.inj hsl', haddr]
    · refine Or.inl ⟨fun h => haddr (h.2 sl hs), ?_⟩
      rw [hsame (by unfold NodeTable.dropRef; rw [hs]; exact if_neg haddr)]
      exact .refl t

end NodeTable

/-! ## Instructions -/

/-- The instruction gives back the last reference of a live node. -/
def RtInstr.Reclaims {σ : FsSig} (t : NodeTable σ.Node) : RtInstr σ → Prop
  | .forget ino m => t.Frees .lookups m ino
  | .removeOpen ino => t.Frees .opens 1 ino
  | .dropNode r => t.FreesRef r
  | .fs (.removeLink id) => t.Frees .links 1 id
  | .fs (.dropRef r) => t.FreesRef r
  | _ => False

/-- A step reclaims a slot exactly if its instruction gives back the last reference of a node. -/
lemma exec_reclaims {σ : FsSig} {s s' : RtState σ} {n : ℕ} {i : RtInstr σ}
    {ch : Option σ.Choice} {r : i.Resp} (hwf : s.table.WF) (he : s.exec n i ch = some (r, s')) :
    (¬ i.Reclaims s.table ∧ Spares s.table s'.table) ∨
      (i.Reclaims s.table ∧ Loses s.table s'.table) := by
  have hspares : ∀ {i : RtInstr σ}, ¬ i.Reclaims s.table → Spares s.table s'.table →
      (¬ i.Reclaims s.table ∧ Spares s.table s'.table) ∨
        (i.Reclaims s.table ∧ Loses s.table s'.table) := fun h h' => Or.inl ⟨h, h'⟩
  cases i with
  | node id | lease id =>
    obtain ⟨⟨o, t'⟩, hget, heq⟩ := Option.map_eq_some_iff.mp he
    obtain ⟨_, rfl⟩ := Prod.mk.inj heq
    obtain ⟨⟨o', t₁⟩, hinc, heq'⟩ := Option.map_eq_some_iff.mp hget
    obtain ⟨_, rfl⟩ := Prod.mk.inj heq'
    exact hspares (fun h => h) (.incr hinc)
  | grant id | retainLookup id =>
    obtain ⟨⟨o, t'⟩, hadd, heq⟩ := Option.map_eq_some_iff.mp he
    obtain ⟨_, rfl⟩ := Prod.mk.inj heq
    obtain ⟨⟨o', t₁⟩, hinc, heq'⟩ := Option.map_eq_some_iff.mp hadd
    obtain ⟨_, rfl⟩ := Prod.mk.inj heq'
    exact hspares (fun h => h) (.incr hinc)
  | addOpen ino =>
    obtain ⟨⟨b, t'⟩, hadd, heq⟩ := Option.map_eq_some_iff.mp he
    obtain ⟨_, rfl⟩ := Prod.mk.inj heq
    obtain ⟨⟨o', t₁⟩, hinc, heq'⟩ := Option.map_eq_some_iff.mp hadd
    obtain ⟨_, rfl⟩ := Prod.mk.inj heq'
    exact hspares (fun h => h) (.incr hinc)
  | dropNode ref =>
    obtain ⟨_, rfl⟩ := Prod.mk.inj (Option.some.inj he)
    exact dropRef_cases hwf ref
  | forget ino m =>
    obtain ⟨_, rfl⟩ := Prod.mk.inj (Option.some.inj he)
    exact decr_cases s.table .lookups m ino
  | removeOpen ino =>
    obtain ⟨_, rfl⟩ := Prod.mk.inj (Option.some.inj he)
    exact decr_cases s.table .opens 1 ino
  | denote | plusEntry | leak | parentOf | discard | removeHandle =>
    obtain ⟨_, rfl⟩ := Prod.mk.inj (Option.some.inj he)
    exact hspares (fun h => h) (.refl _)
  | addHandle | findHandle | acquire | deref | dropLease | dropArc | close | drain | take =>
    obtain ⟨_, _, heq⟩ := Option.map_eq_some_iff.mp he
    obtain ⟨_, rfl⟩ := Prod.mk.inj heq
    exact hspares (fun h => h) (.refl _)
  | fs j =>
    cases j with
    | get id =>
      obtain ⟨⟨o, t'⟩, hget, heq⟩ := Option.map_eq_some_iff.mp he
      obtain ⟨_, rfl⟩ := Prod.mk.inj heq
      obtain ⟨⟨o', t₁⟩, hinc, heq'⟩ := Option.map_eq_some_iff.mp hget
      obtain ⟨_, rfl⟩ := Prod.mk.inj heq'
      exact hspares (fun h => h) (.incr hinc)
    | contains id =>
      obtain ⟨_, rfl⟩ := Prod.mk.inj (Option.some.inj he)
      exact hspares (fun h => h) (.refl _)
    | insert payload parent =>
      obtain ⟨⟨id, t'⟩, hins, heq⟩ := Option.map_eq_some_iff.mp he
      obtain ⟨_, rfl⟩ := Prod.mk.inj heq
      exact hspares (fun h => h) (.insert hwf hins)
    | reparent id newParent =>
      obtain ⟨_, rfl⟩ := Prod.mk.inj (Option.some.inj he)
      exact hspares (fun h => h) (.reparent _ id newParent)
    | addLink id =>
      obtain ⟨t', hadd, heq⟩ := Option.map_eq_some_iff.mp he
      obtain ⟨_, rfl⟩ := Prod.mk.inj heq
      obtain ⟨⟨o', t₁⟩, hinc, rfl⟩ := Option.map_eq_some_iff.mp hadd
      exact hspares (fun h => h) (.incr hinc)
    | removeLink id =>
      obtain ⟨_, rfl⟩ := Prod.mk.inj (Option.some.inj he)
      exact decr_cases s.table .links 1 id
    | dropRef ref =>
      change (if ref.key ∈ s.hist.fsRefs then some ((), _) else none) = some (r, s') at he
      split at he
      · obtain ⟨_, rfl⟩ := Prod.mk.inj (Option.some.inj he)
        exact dropRef_cases hwf ref
      · cases he
    | own i =>
      cases ch with
      | none => cases he
      | some ch =>
        obtain ⟨_, _, heq⟩ := Option.map_eq_some_iff.mp he
        obtain ⟨_, rfl⟩ := Prod.mk.inj heq
        exact hspares (fun h => h) (.refl _)

/-- A node that is live before and after a section is the same node. -/
lemma ident_exec {σ : FsSig} {s s' : RtState σ} {n : ℕ} {i : RtInstr σ} {ch : Option σ.Choice}
    {r : i.Resp} (hwf : s.table.WF) (he : s.exec n i ch = some (r, s')) {id : NodeId}
    {sl sl' : Slot σ.Node} (hsl : s.table.slot id = some sl) (hsl' : s'.table.slot id = some sl') :
    sl'.record = sl.record ∧ sl'.generation = sl.generation := by
  have hcalm : Calm s.table s'.table →
      sl'.record = sl.record ∧ sl'.generation = sl.generation := by
    intro h
    obtain ⟨sl₀, hsl₀, hsame⟩ := h.origin id sl' hsl'
    obtain rfl : sl₀ = sl := Option.some.inj (hsl₀.symm.trans hsl)
    exact hsame
  by_cases hi : ∀ j, i ≠ .fs j
  · exact hcalm (calm_exec hi he).1
  · push Not at hi
    obtain ⟨j, rfl⟩ := hi
    cases j with
    | get id =>
      obtain ⟨⟨o, t'⟩, hget, heq⟩ := Option.map_eq_some_iff.mp he
      obtain ⟨_, rfl⟩ := Prod.mk.inj heq
      exact hcalm (Calm.get hget)
    | contains id =>
      obtain ⟨_, rfl⟩ := Prod.mk.inj (Option.some.inj he)
      exact hcalm (.refl _)
    | insert payload parent =>
      obtain ⟨⟨j, t'⟩, hins, heq⟩ := Option.map_eq_some_iff.mp he
      obtain ⟨_, rfl⟩ := Prod.mk.inj heq
      obtain ⟨gen, hslot⟩ := slot_insert hins
      have hne : id ≠ j := by
        rintro rfl
        rw [hwf.insert_dead hins] at hsl
        cases hsl
      rw [hslot, if_neg hne, hsl] at hsl'
      obtain rfl := Option.some.inj hsl'
      exact ⟨rfl, rfl⟩
    | reparent id newParent =>
      obtain ⟨_, rfl⟩ := Prod.mk.inj (Option.some.inj he)
      exact hcalm (Calm.reparent _ _ _)
    | addLink j =>
      obtain ⟨t', hadd, heq⟩ := Option.map_eq_some_iff.mp he
      obtain ⟨_, rfl⟩ := Prod.mk.inj heq
      obtain ⟨⟨o', t₁⟩, hinc, rfl⟩ := Option.map_eq_some_iff.mp hadd
      change t₁.slot id = some sl' at hsl'
      rw [slot_incr hinc, hsl] at hsl'
      obtain rfl := Option.some.inj hsl'
      split <;> simp
    | removeLink j =>
      obtain ⟨_, rfl⟩ := Prod.mk.inj (Option.some.inj he)
      obtain ⟨sl₀, hsl₀, rfl⟩ := slot_of_slot_decr hsl'
      obtain rfl : sl₀ = sl := Option.some.inj (hsl₀.symm.trans hsl)
      split <;> simp
    | dropRef ref =>
      change (if ref.key ∈ s.hist.fsRefs then some ((), _) else none) = some (r, s') at he
      split at he
      · obtain ⟨_, rfl⟩ := Prod.mk.inj (Option.some.inj he)
        exact hcalm (Calm.dropRef _ _)
      · cases he
    | own i =>
      cases ch with
      | none => cases he
      | some ch =>
        obtain ⟨_, _, heq⟩ := Option.map_eq_some_iff.mp he
        obtain ⟨_, rfl⟩ := Prod.mk.inj heq
        exact hcalm (.refl _)

/-! ## Runs -/

variable {fs : NodeFs}

/-- No step gives back the last reference of a live node. -/
def NoReclaim (c : Config (service fs)) : Action (service fs) → Prop
  | .step n _ => ∀ req i, c.At n req i → ¬ RtInstr.Reclaims c.state.table i
  | _ => True

/-- The table of a reachable configuration is well formed. -/
lemma wf_of_run {allow : Config (service fs) → Action (service fs) → Prop}
    {c : Config (service fs)} (hr : Run allow (start fs) c) : c.state.table.WF := by
  obtain ⟨_, hinv⟩ := (holds_any hr).inv
  exact hinv.wf

/-- An action that is not a step leaves the table alone. -/
lemma table_next {c c' : Config (service fs)} {a : Action (service fs)}
    (hn : c.next a = some c') (ha : ∀ n ch, a ≠ .step n ch) :
    c'.state.table = c.state.table := by
  cases a with
  | step n ch => exact absurd rfl (ha n ch)
  | issue req =>
    obtain ⟨s, hs, rfl⟩ := next_issue hn
    obtain rfl := Option.some.inj hs
    cases req with
    | _ => rfl
  | answer n =>
    obtain ⟨id, req, a, _, rfl⟩ := next_answer hn
    rfl

/-- The node with this number is live after the step. -/
def StaysLive (id : NodeId) (c : Config (service fs)) (a : Action (service fs)) : Prop :=
  ∀ c', c.next a = some c' → ∃ sl, c'.state.table.slot id = some sl

/-- As long as a number stays live, it belongs to the same node. -/
lemma same_node {c₀ c : Config (service fs)} {id : NodeId} {sl₀ : Slot fs.Node}
    (hr₀ : Run anyAction (start fs) c₀) (hsl₀ : c₀.state.table.slot id = some sl₀)
    (hr : Run (StaysLive id) c₀ c) :
    ∃ sl, c.state.table.slot id = some sl ∧ sl.record = sl₀.record ∧
      sl.generation = sl₀.generation := by
  induction hr with
  | refl => exact ⟨sl₀, hsl₀, rfl, rfl⟩
  | @tail c c' a hr ha hn ih =>
    obtain ⟨sl, hsl, hrec, hgen⟩ := ih
    obtain ⟨sl', hsl'⟩ := ha c' hn
    refine ⟨sl', hsl', ?_⟩
    by_cases hstep : ∃ n ch, a = .step n ch
    · obtain ⟨n, ch, rfl⟩ := hstep
      obtain ⟨m, req, i, k, r, s, ht, he, rfl⟩ := next_step hn
      obtain ⟨hrec', hgen'⟩ := ident_exec (wf_of_run (hr₀.trans hr.any)) he hsl hsl'
      exact ⟨hrec'.trans hrec, hgen'.trans hgen⟩
    · have htable := table_next hn fun n ch heq => hstep ⟨n, ch, heq⟩
      rw [htable, hsl] at hsl'
      obtain rfl := Option.some.inj hsl'
      exact ⟨hrec, hgen⟩

/-- Nothing was reclaimed exactly in the runs without a step that gives back a last reference. -/
theorem reclaimed_nil_iff {c : Config (service fs)} (hr : Run anyAction (start fs) c) :
    c.state.table.reclaimed = [] ↔ Run NoReclaim (start fs) c := by
  constructor
  · intro hnil
    induction hr with
    | refl => exact .refl
    | @tail c c' a hr _ hn ih =>
      cases a with
      | issue req =>
        rw [table_next hn (by simp)] at hnil
        exact .tail (a := _) (ih hnil) (by trivial) hn
      | answer n =>
        rw [table_next hn (by simp)] at hnil
        exact .tail (a := _) (ih hnil) (by trivial) hn
      | step n ch =>
        obtain ⟨id, req, i, k, r, s, ht, he, rfl⟩ := next_step hn
        rcases exec_reclaims (wf_of_run hr) he with ⟨hnot, hspares⟩ |
          ⟨_, _, _, _, _, _, hcons, _⟩
        · refine .tail _ (ih (hspares.reclaimed ▸ hnil)) ?_ hn
          rintro req' i' ⟨id', k', ht'⟩
          rw [ht] at ht'
          cases ht'
          exact hnot
        · rw [hcons] at hnil
          cases hnil
  · intro hno
    clear hr
    induction hno with
    | refl => rfl
    | @tail c c' a hr ha hn ih =>
      cases a with
      | issue req => rw [table_next hn (by simp), ih]
      | answer n => rw [table_next hn (by simp), ih]
      | step n ch =>
        obtain ⟨id, req, i, k, r, s, ht, he, rfl⟩ := next_step hn
        rcases exec_reclaims (wf_of_run hr) he with ⟨_, hspares⟩ | ⟨hrec, _⟩
        · exact hspares.reclaimed.trans ih
        · exact absurd hrec (ha req i ⟨id, k, ht⟩)

end TypedFuse
