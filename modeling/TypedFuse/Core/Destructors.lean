import TypedFuse.Core.Books
import TypedFuse.Core.Sample

/-!
# Destructors and the mutex of the table

`DropInv` says where the threads are in the code of the table and that the books of the table are
right; every step keeps it that does not drop, in the critical section, the last `Arc` of a payload
that owns `NodeRef`s.  A `NodeRef::drop` never does: it still has its own `Arc` of the record.  The
other functions that reclaim, `remove_link`, `forget` and `remove_open`, do so unless another
thread has not yet dropped the `Arc` of a `NodeRef` that it has given back.
-/

namespace TypedFuse

open NodeTable

variable {N M : Type}

/-! ## Sums over the threads -/

/-- The sum of the weights of all that the threads have still to do. -/
def weigh [AddCommMonoid M] (f : Glue N → M) (todo : List (List (Glue N))) : M :=
  (todo.map fun ts => (ts.map f).sum).sum

/-- Whatever a thread goes on with, the other threads weigh the same. -/
lemma weigh_set [AddCommMonoid M] (f : Glue N → M) {todo : List (List (Glue N))} {n : ℕ}
    {ts : List (Glue N)} (h : todo[n]? = some ts) :
    ∃ others, weigh f todo = (ts.map f).sum + others ∧
      ∀ ts', weigh f (todo.set n ts') = (ts'.map f).sum + others := by
  induction todo generalizing n with
  | nil => cases h
  | cons ts₀ todo ih =>
    cases n with
    | zero =>
      obtain rfl : ts₀ = ts := Option.some.inj h
      exact ⟨weigh f todo, rfl, fun ts' => rfl⟩
    | succ n =>
      obtain ⟨others, heq, hset⟩ := ih (n := n) h
      refine ⟨(ts₀.map f).sum + others, ?_, ?_⟩
      · rw [add_left_comm, ← heq]
        rfl
      · intro ts'
        rw [add_left_comm, ← hset ts']
        rfl

/-- The `NodeRef`s in the code that is left. -/
def Glue.leases : Glue N → Multiset Lease
  | .dropRef r => {r}
  | .giveBack r => {r}
  | .stmt (.insert _ _ leases) => leases
  | _ => 0

/-- The `Arc`s in the code that is left. -/
def Glue.arcs : Glue N → Multiset ℕ
  | .dropRef r => {r.addr}
  | .dropArc addr => {addr}
  | .stmt (.insert _ _ leases) => (leases : Multiset Lease).map Lease.addr
  | _ => 0

lemma sum_leases_dropRef (ls : List Lease) :
    ((ls.map (Glue.dropRef (N := N))).map Glue.leases).sum = (ls : Multiset Lease) := by
  induction ls with
  | nil => rfl
  | cons r ls ih =>
    rw [List.map_cons, List.map_cons, List.sum_cons, ih]
    rfl

lemma sum_arcs_dropRef (ls : List Lease) :
    ((ls.map (Glue.dropRef (N := N))).map Glue.arcs).sum =
      (ls : Multiset Lease).map Lease.addr := by
  induction ls with
  | nil => rfl
  | cons r ls ih =>
    rw [List.map_cons, List.map_cons, List.sum_cons, ih]
    rfl

namespace DropState

/-- The `NodeRef`s that no code is about to drop. -/
def kept (s : DropState N) : Multiset Lease :=
  s.held + ↑(s.owned.map Prod.snd)

/-- All `NodeRef`s. -/
def leases (s : DropState N) : Multiset Lease :=
  s.kept + weigh Glue.leases s.todo

/-- All `Arc`s outside of the table. -/
def arcs (s : DropState N) : Multiset ℕ :=
  s.kept.map Lease.addr + weigh Glue.arcs s.todo

/-- The `NodeRef`s of a payload and those of the others. -/
lemma owned_split (s : DropState N) (addr : ℕ) :
    (↑(s.owned.map Prod.snd) : Multiset Lease) =
      ↑(s.ownedBy addr) + ↑((s.owned.filter fun x => x.1 ≠ addr).map Prod.snd) := by
  have hperm := (List.filter_append_perm (fun x => decide (x.1 = addr)) s.owned).map Prod.snd
  rw [List.map_append] at hperm
  rw [Multiset.coe_add]
  refine (Multiset.coe_eq_coe.mpr hperm).symm.trans ?_
  simp only [ownedBy, ne_eq, decide_not]

end DropState

/-! ## Where a thread is -/

/-- The statement counts no leases. -/
def TableStmt.Plain (i : TableStmt N) : Prop :=
  ∀ c id, i = .incr c id → c ≠ .leases

/-- What a thread may have to do that does not hold the mutex. -/
inductive Outside : List (Glue N) → Prop where
  | nil : Outside []
  | dropRef (r : Lease) {ts : List (Glue N)} (h : Outside ts) : Outside (.dropRef r :: ts)
  | dropArc (addr : ℕ) {ts : List (Glue N)} (h : Outside ts) : Outside (.dropArc addr :: ts)
  | stmt {i : TableStmt N} (hi : i.Plain) : Outside [.lock, .stmt i, .unlock]
  | lower {c : Counter} (hc : c ≠ .leases) (n : ℕ) (id : NodeId) :
    Outside [.lock, .lower c n id, .maybeDrop id, .unlock]
  | giveBack (r : Lease) {ts : List (Glue N)} (h : Outside ts) :
    Outside (.lock :: .giveBack r :: .maybeDrop r.id :: .unlock :: .dropArc r.addr :: ts)

/-- What a thread may have to do that holds the mutex: a function that is called in the critical
section of a `NodeRef::drop` returns to the drop of the `Arc` of the same record. -/
inductive Inside (t : NodeTable N) : List (Glue N) → Prop where
  | stmt {i : TableStmt N} (hi : i.Plain) : Inside t [.stmt i, .unlock]
  | lower {c : Counter} (hc : c ≠ .leases) (n : ℕ) (id : NodeId) :
    Inside t [.lower c n id, .maybeDrop id, .unlock]
  | maybeDrop (id : NodeId) : Inside t [.maybeDrop id, .unlock]
  | lastArc (addr : ℕ) : Inside t [.dropArc addr, .unlock]
  | unlock {ts : List (Glue N)} (h : Outside ts) : Inside t (.unlock :: ts)
  | giveBack (r : Lease) {ts : List (Glue N)} (h : Outside ts) :
    Inside t (.giveBack r :: .maybeDrop r.id :: .unlock :: .dropArc r.addr :: ts)
  | dropSlot (r : Lease) {ts : List (Glue N)} (h : Outside ts)
    (hs : ∀ sl, t.slot r.id = some sl → sl.record.addr = r.addr) :
    Inside t (.maybeDrop r.id :: .unlock :: .dropArc r.addr :: ts)
  | dropArc (addr : ℕ) {ts : List (Glue N)} (h : Outside ts) :
    Inside t (.dropArc addr :: .unlock :: .dropArc addr :: ts)

lemma Outside.dropRefs (ls : List Lease) {ts : List (Glue N)} (h : Outside ts) :
    Outside (ls.map Glue.dropRef ++ ts) := by
  induction ls with
  | nil => exact h
  | cons r ls ih => exact .dropRef r ih

/-- The threads are where the mutex says that they are. -/
structure Phased (s : DropState N) : Prop where
  holder : ∀ n, s.mutex = some n → n < s.todo.length
  inside : ∀ n ts, s.todo[n]? = some ts → s.mutex = some n → Inside s.table ts
  outside : ∀ n ts, s.todo[n]? = some ts → s.mutex ≠ some n → Outside ts

/-- One thread takes a step. -/
lemma Phased.step {s s' : DropState N} {n : ℕ} {ts ts' : List (Glue N)} (h : Phased s)
    (hn : s.todo[n]? = some ts) (htodo : s'.todo = s.todo.set n ts')
    (hmutex : ∀ m, m ≠ n → (s'.mutex = some m ↔ s.mutex = some m))
    (htable : s.mutex ≠ some n → s'.table = s.table)
    (hin : s'.mutex = some n → Inside s'.table ts')
    (hout : s'.mutex ≠ some n → Outside ts') : Phased s' := by
  have hlt : n < s.todo.length := (List.getElem?_eq_some_iff.mp hn).1
  have hself : ∀ us, s'.todo[n]? = some us → us = ts' := by
    intro us hus
    rw [htodo, List.getElem?_set_self hlt] at hus
    exact (Option.some.inj hus).symm
  have hothers : ∀ m us, m ≠ n → s'.todo[m]? = some us → s.todo[m]? = some us := by
    intro m us hne hus
    rwa [htodo, List.getElem?_set_ne (Ne.symm hne)] at hus
  refine ⟨?_, ?_, ?_⟩
  · intro m hm
    rw [htodo, List.length_set]
    by_cases hmn : m = n
    · exact hmn ▸ hlt
    · exact h.holder m ((hmutex m hmn).mp hm)
  · intro m us hus hm
    by_cases hmn : m = n
    · subst hmn
      rw [hself us hus]
      exact hin hm
    · have hm' := (hmutex m hmn).mp hm
      have hne : s.mutex ≠ some n := by
        rw [hm']
        exact fun heq => hmn (Option.some.inj heq)
      rw [htable hne]
      exact h.inside m us (hothers m us hmn hus) hm'
  · intro m us hus hm
    by_cases hmn : m = n
    · subst hmn
      rw [hself us hus]
      exact hout hm
    · exact h.outside m us (hothers m us hmn hus) fun hm' => hm ((hmutex m hmn).mpr hm')

/-- The threads and the books are in order. -/
structure DropInv (s : DropState N) : Prop extends Phased s where
  books : Books s.table s.strong s.leases s.arcs

namespace DropInv

variable {s s' : DropState N} {n : ℕ} {ts ts' : List (Glue N)}

/-- The `NodeRef`s and the `Arc`s before and after a step of one thread. -/
lemma sums {u : DropState N} (hn : s.todo[n]? = some ts) (htodo : u.todo = s.todo.set n tu) :
    ∃ L A, s.leases = s.kept + ((ts.map Glue.leases).sum + L) ∧
      u.leases = u.kept + ((tu.map Glue.leases).sum + L) ∧
      s.arcs = s.kept.map Lease.addr + ((ts.map Glue.arcs).sum + A) ∧
      u.arcs = u.kept.map Lease.addr + ((tu.map Glue.arcs).sum + A) := by
  obtain ⟨L, hL, hL'⟩ := weigh_set Glue.leases hn
  obtain ⟨A, hA, hA'⟩ := weigh_set Glue.arcs hn
  refine ⟨L, A, ?_, ?_, ?_, ?_⟩
  · rw [DropState.leases, hL]
  · rw [DropState.leases, htodo, hL']
  · rw [DropState.arcs, hA]
  · rw [DropState.arcs, htodo, hA']

/-- A step that moves no `NodeRef` and no `Arc`. -/
lemma calm {u : DropState N} (hn : s.todo[n]? = some ts) (htodo : u.todo = s.todo.set n tu)
    (hkept : u.kept = s.kept)
    (hleases : (tu.map Glue.leases).sum = (ts.map Glue.leases).sum)
    (harcs : (tu.map Glue.arcs).sum = (ts.map Glue.arcs).sum) :
    u.leases = s.leases ∧ u.arcs = s.arcs := by
  obtain ⟨L, A, hL, hL', hA, hA'⟩ := sums hn htodo
  rw [hL, hL', hA, hA', hkept, hleases, harcs]
  exact ⟨rfl, rfl⟩

/-- A step in the critical section that leaves the leases and the `Arc`s alone. -/
lemma of_calm (h : DropInv s) (hm : s.mutex = some n) (hn : s.todo[n]? = some ts)
    {t : NodeTable N} (hbooks : Books t s.strong s.leases s.arcs) (hin : Inside t ts')
    (hleases : (ts'.map Glue.leases).sum = (ts.map Glue.leases).sum)
    (harcs : (ts'.map Glue.arcs).sum = (ts.map Glue.arcs).sum) :
    DropInv ({ s with table := t }.goesOn n ts') := by
  refine ⟨h.toPhased.step hn rfl (fun m _ => Iff.rfl) (fun hne => absurd hm hne) (fun _ => hin)
    fun hne => absurd hm hne, ?_⟩
  obtain ⟨hl, ha⟩ := calm (u := { s with table := t }.goesOn n ts') hn rfl rfl hleases harcs
  rw [hl, ha]
  exact hbooks

/-- A statement of a critical section. -/
lemma exec (h : DropInv s) (hm : s.mutex = some n) {i : TableStmt N} (hi : i.Plain)
    (hn : s.todo[n]? = some [.stmt i, .unlock]) : DropInv (s.exec n [.unlock] i) := by
  have hunlock : ∀ t : NodeTable N, Inside t [.unlock] := fun t => .unlock .nil
  have hphased : ∀ {s' : DropState N} {ts'}, s'.todo = s.todo.set n ts' → s'.mutex = s.mutex →
      Inside s'.table ts' → Phased s' := by
    intro s' ts' htodo hmutex hin
    refine h.toPhased.step hn htodo (fun m _ => by rw [hmutex]) (fun hne => absurd hm hne)
      (fun _ => hin) fun hne => absurd (hmutex.trans hm) hne
  cases i with
  | get id =>
    unfold DropState.exec
    dsimp only
    split
    · next r t hget =>
      refine ⟨hphased rfl rfl (hunlock _), ?_⟩
      have hbooks := h.books.get hget
      obtain ⟨L, A, hL, hL', hA, hA'⟩ := sums (u := { s with
        table := t
        strong := Function.update s.strong r.record.addr (s.strong r.record.addr + 1)
        held := ⟨id, r.record.addr⟩ ::ₘ s.held }.goesOn n [.unlock]) hn rfl
      rw [hL, hA] at hbooks
      rw [hL', hA']
      refine cast (congrArg₂ (Books t _) ?_ ?_) hbooks
      · simp [DropState.kept, DropState.goesOn, Glue.leases]
      · simp [DropState.kept, DropState.goesOn, Glue.arcs]
    · exact h.of_calm hm hn h.books (hunlock _) rfl rfl
  | insert payload parent leases =>
    unfold DropState.exec
    dsimp only
    split
    · next id t hinsert =>
      refine ⟨hphased rfl rfl (hunlock _), ?_⟩
      have hbooks := h.books.insert hinsert
      obtain ⟨L, A, hL, hL', hA, hA'⟩ := sums (u := { s with
        table := t
        strong := Function.update s.strong (s.table.issued.length + 1) 1
        owned := s.owned ++ leases.map (Prod.mk (s.table.issued.length + 1)) }.goesOn n
          [.unlock]) hn rfl
      rw [hL, hA] at hbooks
      rw [hL', hA']
      refine cast (congrArg₂ (Books t _) ?_ ?_) hbooks
      · simp [DropState.kept, DropState.goesOn, Glue.leases, Function.comp_def,
          ← Multiset.coe_add, add_assoc]
      · simp [DropState.kept, DropState.goesOn, Glue.arcs, Function.comp_def, ← Multiset.coe_add,
          add_assoc]
    · have hsums : ∀ {M : Type} [AddCommMonoid M] (f : Glue N → M), f .unlock = 0 →
          ((leases.map Glue.dropRef).map f).sum = f (.stmt (.insert payload parent leases)) →
          (([Glue.unlock] ++ leases.map Glue.dropRef).map f).sum =
            ([Glue.stmt (.insert payload parent leases), .unlock].map f).sum := by
        intro M _ f hunlock hleases
        simp only [List.map_append, List.sum_append, hleases, List.map_cons, List.map_nil,
          List.sum_cons, List.sum_nil, hunlock, add_zero, zero_add]
      refine h.of_calm hm hn h.books (.unlock ?_) ?_ ?_
      · exact (List.append_nil (leases.map Glue.dropRef)) ▸ Outside.dropRefs leases .nil
      · exact hsums Glue.leases rfl (sum_leases_dropRef leases)
      · exact hsums Glue.arcs rfl (sum_arcs_dropRef leases)
  | incr c id =>
    unfold DropState.exec
    dsimp only
    split
    · next r t hincr =>
      exact h.of_calm hm hn (h.books.incr (hi c id rfl) hincr) (hunlock _) rfl rfl
    · exact h.of_calm hm hn h.books (hunlock _) rfl rfl
  | reparent id newParent =>
    exact h.of_calm hm hn (h.books.reparent id newParent) (hunlock _) rfl rfl
  | contains id => exact h.of_calm hm hn h.books (hunlock _) rfl rfl

/-- The drop of an `Arc`: in the critical section, the payload is not dropped or owns nothing. -/
lemma dropArc {addr : ℕ} {rest : List (Glue N)} (h : DropInv s)
    (hn : s.todo[n]? = some (.dropArc addr :: rest)) (hs : s.step n rest (.dropArc addr) = some s')
    (hin : s.mutex = some n → Inside s.table rest ∧ (s.strong addr = 1 → s.ownedBy addr = []))
    (hout : s.mutex ≠ some n → Outside rest) : DropInv s' := by
  unfold DropState.step at hs
  dsimp only at hs
  split at hs
  · next hlast =>
    obtain rfl := Option.some.inj hs
    refine ⟨h.toPhased.step hn rfl (fun m _ => Iff.rfl) (fun _ => rfl) ?_ ?_, ?_⟩
    · intro hm
      obtain ⟨hrest, hnone⟩ := hin hm
      rw [hnone hlast]
      exact hrest
    · exact fun hm => .dropRefs _ (hout hm)
    · have hbooks := h.books
      obtain ⟨L, A, hL, hL', hA, hA'⟩ := sums (u := { s with
        strong := Function.update s.strong addr (s.strong addr - 1)
        owned := s.owned.filter fun x => x.1 ≠ addr }.goesOn n
          ((s.ownedBy addr).map Glue.dropRef ++ rest)) hn rfl
      rw [hL, hA, DropState.kept, s.owned_split addr] at hbooks
      rw [hL', hA']
      refine Books.dropArc (cast (congrArg₂ (Books _ _) ?_ ?_) hbooks)
      · simp only [DropState.kept, DropState.goesOn, List.map_append, List.sum_append,
          sum_leases_dropRef, List.map_cons, List.sum_cons, Glue.leases, zero_add]
        abel
      · simp only [DropState.kept, DropState.goesOn, List.map_append, List.sum_append,
          sum_arcs_dropRef, List.map_cons, List.sum_cons, Glue.arcs, Multiset.map_add,
          ← Multiset.singleton_add]
        abel
  · obtain rfl := Option.some.inj hs
    refine ⟨h.toPhased.step hn rfl (fun m _ => Iff.rfl) (fun _ => rfl) (fun hm => (hin hm).1)
      hout, ?_⟩
    have hbooks := h.books
    obtain ⟨L, A, hL, hL', hA, hA'⟩ := sums (u := { s with
      strong := Function.update s.strong addr (s.strong addr - 1) }.goesOn n rest) hn rfl
    rw [hL, hA] at hbooks
    rw [hL', hA']
    refine Books.dropArc (cast (congrArg₂ (Books _ _) ?_ ?_) hbooks)
    · simp only [DropState.kept, DropState.goesOn, List.map_cons, List.sum_cons, Glue.leases,
        zero_add]
    · simp only [DropState.kept, DropState.goesOn, List.map_cons, List.sum_cons, Glue.arcs,
        ← Multiset.singleton_add]
      abel

/-- An `Arc` that is dropped twice has a strong count of two at least. -/
lemma strong_ne_one {addr : ℕ} (h : DropInv s)
    (hn : s.todo[n]? = some (.dropArc addr :: .unlock :: .dropArc addr :: ts)) :
    s.strong addr ≠ 1 := by
  obtain ⟨A, hA, _⟩ := weigh_set Glue.arcs hn
  have hshared := h.books.shared addr
  have hcount : 2 ≤ s.arcs.count addr := by
    rw [DropState.arcs, hA]
    simp only [List.map_cons, List.sum_cons, Glue.arcs, Multiset.count_add,
      Multiset.count_singleton_self]
    omega
  omega

/-- `maybe_drop`, and what is left to do in the critical section. -/
lemma maybeDrop {id : NodeId} {rest : List (Glue N)} (h : DropInv s) (hm : s.mutex = some n)
    (hn : s.todo[n]? = some (.maybeDrop id :: rest))
    (hs : s.step n rest (.maybeDrop id) = some s') (hrest : Inside s.table rest)
    (hdrop : ∀ t sl, s.table.slot id = some sl → Inside t (.dropArc sl.record.addr :: rest)) :
    DropInv s' := by
  unfold DropState.step at hs
  dsimp only at hs
  split at hs
  · next sl hslot =>
    split at hs
    · next hd =>
      obtain rfl := Option.some.inj hs
      refine ⟨h.toPhased.step hn rfl (fun m _ => Iff.rfl) (fun hne => absurd hm hne)
        (fun _ => hdrop _ sl hslot) fun hne => absurd hm hne, ?_⟩
      have hbooks := h.books.maybeDrop hslot hd
      obtain ⟨L, A, hL, hL', hA, hA'⟩ := sums (u := { s with
        table := s.table.maybeDrop id }.goesOn n (.dropArc sl.record.addr :: rest)) hn rfl
      rw [hL, hA] at hbooks
      rw [hL', hA']
      refine cast (congrArg₂ (Books _ _) ?_ ?_) hbooks
      · simp only [DropState.kept, DropState.goesOn, List.map_cons, List.sum_cons, Glue.leases]
      · simp only [DropState.kept, DropState.goesOn, List.map_cons, List.sum_cons, Glue.arcs,
          ← Multiset.singleton_add]
        abel
    · obtain rfl := Option.some.inj hs
      exact h.of_calm hm hn h.books hrest (by simp [Glue.leases]) (by simp [Glue.arcs])
  · obtain rfl := Option.some.inj hs
    exact h.of_calm hm hn h.books hrest (by simp [Glue.leases]) (by simp [Glue.arcs])

/-- The first statement of `NodeRef::drop`. -/
lemma giveBack {r : Lease} (h : DropInv s) (hm : s.mutex = some n)
    (hn : s.todo[n]? =
      some (.giveBack r :: .maybeDrop r.id :: .unlock :: .dropArc r.addr :: ts))
    (hout : Outside ts) :
    DropInv ({ s with table := s.table.giveBack r }.goesOn n
      (.maybeDrop r.id :: .unlock :: .dropArc r.addr :: ts)) := by
  obtain ⟨L, A, hL, hL', hA, hA'⟩ := sums (u := { s with
    table := s.table.giveBack r }.goesOn n
      (.maybeDrop r.id :: .unlock :: .dropArc r.addr :: ts)) hn rfl
  have hbooks : Books s.table s.strong
      (r ::ₘ (s.kept + ((Glue.dropArc r.addr :: ts).map Glue.leases).sum + L)) s.arcs := by
    refine cast (congrArg₂ (Books _ _) ?_ rfl) h.books
    rw [hL, ← Multiset.singleton_add]
    simp only [List.map_cons, List.sum_cons, Glue.leases]
    abel
  obtain ⟨hgive, haddr⟩ := hbooks.giveBack
  refine ⟨h.toPhased.step hn rfl (fun m _ => Iff.rfl) (fun hne => absurd hm hne)
    (fun _ => .dropSlot r hout haddr) fun hne => absurd hm hne, ?_⟩
  rw [hL', hA']
  rw [hA] at hgive
  refine cast (congrArg₂ (Books _ _) ?_ ?_) hgive
  · simp only [DropState.kept, DropState.goesOn, List.map_cons, List.sum_cons, Glue.leases]
    abel
  · simp only [DropState.kept, DropState.goesOn, List.map_cons, List.sum_cons, Glue.arcs,
      zero_add]

/-- A step in the critical section. -/
lemma step_inside {g : Glue N} {rest : List (Glue N)} (h : DropInv s) (hm : s.mutex = some n)
    (hn : s.todo[n]? = some (g :: rest)) (hs : s.step n rest g = some s')
    (hspare : ∀ addr, g = .dropArc addr → rest = [.unlock] → s.strong addr = 1 →
      s.ownedBy addr = []) : DropInv s' := by
  have hin := h.inside n _ hn hm
  generalize hts : g :: rest = us at hin
  cases hin with
  | stmt hi =>
    obtain ⟨rfl, rfl⟩ := List.cons.inj hts
    obtain rfl := Option.some.inj hs
    exact h.exec hm hi hn
  | lower hc k id =>
    obtain ⟨rfl, rfl⟩ := List.cons.inj hts
    obtain rfl := Option.some.inj hs
    exact h.of_calm hm hn (h.books.lower hc k id) (.maybeDrop id) rfl rfl
  | maybeDrop id =>
    obtain ⟨rfl, rfl⟩ := List.cons.inj hts
    exact h.maybeDrop hm hn hs (.unlock .nil) fun _ sl _ => .lastArc sl.record.addr
  | lastArc addr =>
    obtain ⟨rfl, rfl⟩ := List.cons.inj hts
    exact h.dropArc hn hs (fun _ => ⟨.unlock .nil, hspare addr rfl rfl⟩)
      fun hne => absurd hm hne
  | unlock hout =>
    obtain ⟨rfl, rfl⟩ := List.cons.inj hts
    obtain rfl := Option.some.inj hs
    refine ⟨h.toPhased.step hn rfl ?_ (fun _ => rfl) (fun hnone => nomatch hnone) fun _ => hout,
      ?_⟩
    · intro m hne
      constructor
      · intro hnone
        cases hnone
      · intro hm'
        exact absurd (Option.some.inj (hm'.symm.trans hm)) hne
    · obtain ⟨hl, ha⟩ := calm (u := { s with mutex := none }.goesOn n rest) hn rfl rfl
        (by simp [Glue.leases]) (by simp [Glue.arcs])
      rw [hl, ha]
      exact h.books
  | giveBack r hout =>
    obtain ⟨rfl, rfl⟩ := List.cons.inj hts
    obtain rfl := Option.some.inj hs
    exact h.giveBack hm hn hout
  | dropSlot r hout haddr =>
    obtain ⟨rfl, rfl⟩ := List.cons.inj hts
    refine h.maybeDrop hm hn hs (.unlock (.dropArc r.addr hout)) ?_
    intro t sl hsl
    rw [haddr sl hsl]
    exact .dropArc r.addr hout
  | dropArc addr hout =>
    obtain ⟨rfl, rfl⟩ := List.cons.inj hts
    refine h.dropArc hn hs (fun _ => ⟨.unlock (.dropArc addr hout), ?_⟩)
      fun hne => absurd hm hne
    exact fun hlast => absurd hlast (h.strong_ne_one hn)

/-- A step outside of the critical section. -/
lemma step_outside {g : Glue N} {rest : List (Glue N)} (h : DropInv s) (hm : s.mutex ≠ some n)
    (hn : s.todo[n]? = some (g :: rest)) (hs : s.step n rest g = some s') : DropInv s' := by
  have hlock : ∀ {rest : List (Glue N)}, s.todo[n]? = some (.lock :: rest) →
      s.step n rest .lock = some s' → Inside s.table rest → DropInv s' := by
    intro rest hn hs hin
    unfold DropState.step at hs
    dsimp only at hs
    split at hs
    · next hfree =>
      obtain rfl := Option.some.inj hs
      refine ⟨h.toPhased.step hn rfl ?_ (fun _ => rfl) (fun _ => hin) fun hne => absurd rfl hne,
        ?_⟩
      · intro m hne
        constructor
        · intro hm'
          exact absurd (Option.some.inj hm').symm hne
        · intro hm'
          rw [hfree] at hm'
          cases hm'
      · obtain ⟨hl, ha⟩ := calm (u := { s with mutex := some n }.goesOn n rest) hn rfl rfl
          (by simp [Glue.leases]) (by simp [Glue.arcs])
        rw [hl, ha]
        exact h.books
    · cases hs
  have hout := h.outside n _ hn hm
  generalize hts : g :: rest = us at hout
  cases hout with
  | nil => cases hts
  | dropRef r hout =>
    obtain ⟨rfl, rfl⟩ := List.cons.inj hts
    obtain rfl := Option.some.inj hs
    refine ⟨h.toPhased.step hn rfl (fun m _ => Iff.rfl) (fun _ => rfl) (fun hm' => absurd hm' hm)
      fun _ => .giveBack r hout, ?_⟩
    obtain ⟨hl, ha⟩ := calm (u := s.goesOn n
      (.lock :: .giveBack r :: .maybeDrop r.id :: .unlock :: .dropArc r.addr :: rest)) hn rfl rfl
      (by simp [Glue.leases]) (by simp [Glue.arcs])
    rw [hl, ha]
    exact h.books
  | dropArc addr hout =>
    obtain ⟨rfl, rfl⟩ := List.cons.inj hts
    exact h.dropArc hn hs (fun hm' => absurd hm' hm) fun _ => hout
  | stmt hi =>
    obtain ⟨rfl, rfl⟩ := List.cons.inj hts
    exact hlock hn hs (.stmt hi)
  | lower hc k id =>
    obtain ⟨rfl, rfl⟩ := List.cons.inj hts
    exact hlock hn hs (.lower hc k id)
  | giveBack r hout =>
    obtain ⟨rfl, rfl⟩ := List.cons.inj hts
    exact hlock hn hs (.giveBack r hout)

/-- A thread that holds the mutex has something to do. -/
lemma mutex_ne (h : DropInv s) (hn : s.todo[n]? = some []) : s.mutex ≠ some n := by
  intro hm
  cases h.inside n _ hn hm

/-- A thread calls a function and gives it some of the `NodeRef`s. -/
lemma given {body : List (Glue N)} {G : Multiset Lease} (h : DropInv s)
    (hn : s.todo[n]? = some []) (htable : s'.table = s.table) (hmutex : s'.mutex = s.mutex)
    (hstrong : s'.strong = s.strong) (htodo : s'.todo = s.todo) (hout : Outside body)
    (hkept : s'.kept + G = s.kept) (hleases : (body.map Glue.leases).sum = G)
    (harcs : (body.map Glue.arcs).sum = G.map Lease.addr) : DropInv (s'.goesOn n body) := by
  have hm := h.mutex_ne hn
  have hset : (s'.goesOn n body).todo = s.todo.set n body := by
    rw [← htodo]
    rfl
  refine ⟨h.toPhased.step hn hset (fun m _ => ?_) (fun _ => htable) (fun hm' => ?_) fun _ => hout,
    ?_⟩
  · exact hmutex ▸ Iff.rfl
  · exact absurd (hmutex ▸ hm') hm
  · have hbooks := h.books
    obtain ⟨L, A, hL, hL', hA, hA'⟩ := sums hn hset
    rw [hL, hA, ← htable, ← hstrong, ← hkept] at hbooks
    rw [hL', hA', hleases, harcs]
    refine cast (congrArg₂ (Books _ _) ?_ ?_) hbooks
    · simp only [DropState.kept, DropState.goesOn, List.map_nil, List.sum_nil, zero_add, add_assoc]
    · simp only [DropState.kept, DropState.goesOn, List.map_nil, List.sum_nil, zero_add, add_assoc,
        Multiset.map_add]

/-- A call of a function. -/
lemma call {f : TableCall N} (h : DropInv s) (hn : s.todo[n]? = some [])
    (hs : s.moves f = some s') : DropInv (s'.goesOn n f.body) := by
  have hnothing : ∀ {body : List (Glue N)}, Outside body → (body.map Glue.leases).sum = 0 →
      (body.map Glue.arcs).sum = 0 → DropInv (s.goesOn n body) :=
    fun hout hl ha => h.given hn rfl rfl rfl rfl hout (add_zero _) hl ha
  have hplain : ∀ i : TableStmt N, (∀ c id, i ≠ .incr c id) → i.Plain :=
    fun i hi c id heq => absurd heq (hi c id)
  have hincr : ∀ (c : Counter) (id : NodeId), c ≠ .leases →
      (TableStmt.incr (N := N) c id).Plain := by
    rintro c id hc c' id' heq
    cases heq
    exact hc
  have hlinks : Counter.links ≠ .leases := by decide
  have hlookups : Counter.lookups ≠ .leases := by decide
  have hopens : Counter.opens ≠ .leases := by decide
  cases f with
  | get | contains | reparent =>
    obtain rfl := Option.some.inj hs
    exact hnothing (.stmt (hplain _ fun _ _ => nofun)) rfl rfl
  | addLink id =>
    obtain rfl := Option.some.inj hs
    exact hnothing (.stmt (hincr _ id hlinks)) rfl rfl
  | addLookup id =>
    obtain rfl := Option.some.inj hs
    exact hnothing (.stmt (hincr _ id hlookups)) rfl rfl
  | addOpen id =>
    obtain rfl := Option.some.inj hs
    exact hnothing (.stmt (hincr _ id hopens)) rfl rfl
  | removeLink id =>
    obtain rfl := Option.some.inj hs
    exact hnothing (.lower hlinks 1 id) rfl rfl
  | forget ino nlookup =>
    obtain rfl := Option.some.inj hs
    exact hnothing (.lower hlookups nlookup ino) rfl rfl
  | removeOpen ino =>
    obtain rfl := Option.some.inj hs
    exact hnothing (.lower hopens 1 ino) rfl rfl
  | insert payload parent leases =>
    unfold DropState.moves at hs
    dsimp only at hs
    split at hs
    · next hle =>
      obtain rfl := Option.some.inj hs
      refine h.given (G := ↑leases) hn rfl rfl rfl rfl (.stmt (hplain _ fun _ _ => nofun))
        ?_ ?_ ?_
      · rw [DropState.kept, add_right_comm, Multiset.sub_add_cancel hle]
        rfl
      · simp [TableCall.body, TableCall.plain, Glue.leases]
      · simp [TableCall.body, TableCall.plain, Glue.arcs]
    · cases hs
  | drop r =>
    unfold DropState.moves at hs
    dsimp only at hs
    split at hs
    · next hmem =>
      obtain rfl := Option.some.inj hs
      refine h.given (G := {r}) hn rfl rfl rfl rfl (.dropRef r .nil) ?_ rfl rfl
      rw [DropState.kept, add_right_comm, add_comm (s.held.erase r), Multiset.singleton_add,
        Multiset.cons_erase hmem]
      rfl
    · cases hs
  | store addr r =>
    unfold DropState.moves at hs
    dsimp only at hs
    split at hs
    · next hmem =>
      obtain rfl := Option.some.inj hs
      refine h.given (G := 0) hn rfl rfl rfl rfl .nil ?_ rfl rfl
      rw [DropState.kept, add_zero, DropState.kept]
      conv_rhs => rw [← Multiset.cons_erase hmem.1]
      simp only [List.map_append, List.map_cons, List.map_nil, ← Multiset.coe_add,
        Multiset.coe_singleton, ← Multiset.singleton_add]
      abel
    · cases hs
  | take addr r =>
    unfold DropState.moves at hs
    dsimp only at hs
    split at hs
    · next hmem =>
      obtain rfl := Option.some.inj hs
      refine h.given (G := 0) hn rfl rfl rfl rfl .nil ?_ rfl rfl
      have hperm := (List.perm_cons_erase hmem).map Prod.snd
      rw [DropState.kept, add_zero, DropState.kept, Multiset.coe_eq_coe.mpr hperm, List.map_cons,
        ← Multiset.cons_coe, Multiset.cons_add, Multiset.add_cons]
    · cases hs

/-- The books of a new runtime. -/
lemma start (fs : NodeFs) (threads : ℕ) : DropInv (DropState.start fs threads) := by
  have hnil : ∀ (n : ℕ) ts, (DropState.start fs threads).todo[n]? = some ts → ts = [] := by
    intro n ts hts
    exact List.eq_of_mem_replicate (List.mem_of_getElem? hts)
  have hweigh : ∀ {M : Type} [AddCommMonoid M] (f : Glue fs.Node → M),
      weigh f (DropState.start fs threads).todo = 0 := by
    intro M _ f
    simp [weigh, DropState.start]
  have hleases : (DropState.start fs threads).leases = 0 := by
    rw [DropState.leases, hweigh]
    rfl
  have harcs : (DropState.start fs threads).arcs = 0 := by
    rw [DropState.arcs, hweigh]
    rfl
  refine ⟨⟨fun n hn => (nomatch hn), fun n ts _ hn => (nomatch hn), ?_⟩, ?_⟩
  · intro n ts hts _
    rw [hnil n ts hts]
    exact .nil
  · rw [hleases, harcs]
    refine ⟨wf_new.toConsistent, fun r hr => absurd hr (Multiset.notMem_zero r), ?_, ?_, ?_⟩
    · intro id sl hsl
      exact (count_of_slot hsl .leases).symm.trans (count_new (by decide) id)
    · intro addr
      have hinsert := BTreeMap.countWhere_insert (m := ∅) (a := NodeId.ROOT)
        (Finmap.lookup_empty _) (Runtime.rootSlot fs) fun _ sl => sl.record.addr == addr
      rw [BTreeMap.countWhere_empty, Nat.zero_add] at hinsert
      have hsharing : (Runtime.new fs).table.sharing addr = if (0 == addr) then 1 else 0 := hinsert
      rw [show (DropState.start fs threads).table = (Runtime.new fs).table from rfl, hsharing]
      by_cases ha : addr = 0
      · subst ha
        rfl
      · have hfalse : (0 == addr) = false := beq_false_of_ne fun heq => ha heq.symm
        simp [DropState.start, ha, hfalse]
    · intro addr hlt
      have hne : addr ≠ 0 := Nat.ne_of_gt (Nat.lt_of_le_of_lt (Nat.zero_le _) hlt)
      exact if_neg hne

end DropInv

/-! ## Runs -/

namespace DropState

/-- `remove_link`, `forget` or `remove_open` has reclaimed a slot and is about to drop the last
`Arc` of its record, with the mutex held: a `NodeRef::drop` would have its own `Arc` left. -/
def ReclaimsLast (s : DropState N) (n addr : ℕ) : Prop :=
  s.todo[n]? = some [.dropArc addr, .unlock] ∧ s.strong addr = 1

/-- The step drops no payload in this way that owns a `NodeRef`. -/
def SparesLeases (s : DropState N) : DropAction N → Prop
  | .run n => ∀ addr, s.ReclaimsLast n addr → s.ownedBy addr = []
  | .call _ _ => True

/-- The step drops no payload in this way. -/
def SparesPayloads (s : DropState N) : DropAction N → Prop
  | .run n => ∀ addr, ¬ s.ReclaimsLast n addr
  | .call _ _ => True

/-- The thread is about to drop a payload with the mutex held. -/
def DropsLocked (s : DropState N) (n : ℕ) : Prop :=
  ∃ addr rest, s.todo[n]? = some (.dropArc addr :: rest) ∧ s.strong addr = 1 ∧
    s.mutex = some n

/-- Reclaiming never gets in its own way. -/
structure Unblocked (s : DropState N) : Prop where
  /-- No thread waits for the mutex while it holds it. -/
  waits : ∀ n, ¬ s.WaitsForItself n
  /-- `NodeRef`s are dropped where the mutex can be locked. -/
  drops : ∀ n r rest, s.todo[n]? = some (.dropRef r :: rest) → s.mutex ≠ some n
  /-- As long as something is left to do, some thread can do it. -/
  moves : (∃ ts ∈ s.todo, ts ≠ []) → ∃ n s', s.run n = some s'
  /-- Without new calls, this comes to an end. -/
  ends : Acc (fun s₁ s₀ => ∃ n, s₀.run n = some s₁) s

variable {s s' : DropState N} {n : ℕ}

lemma run_eq {g : Glue N} {rest : List (Glue N)} (hn : s.todo[n]? = some (g :: rest)) :
    s.run n = s.step n rest g := by
  unfold run
  rw [hn]

lemma run_cases (h : s.run n = some s') :
    ∃ g rest, s.todo[n]? = some (g :: rest) ∧ s.step n rest g = some s' := by
  unfold run at h
  split at h
  · next g rest hn => exact ⟨g, rest, hn, h⟩
  · cases h

end DropState

namespace DropInv

variable {s s' : DropState N} {n : ℕ}

lemma next (h : DropInv s) {a : DropAction N} (ha : s.SparesLeases a) (hs : s.next a = some s') :
    DropInv s' := by
  cases a with
  | call n f =>
    unfold DropState.next at hs
    dsimp only at hs
    split at hs
    · next hn =>
      obtain ⟨s₁, hmoves, rfl⟩ := Option.map_eq_some_iff.mp hs
      exact h.call hn hmoves
    · cases hs
  | run n =>
    obtain ⟨g, rest, hn, hstep⟩ := DropState.run_cases hs
    by_cases hm : s.mutex = some n
    · refine h.step_inside hm hn hstep ?_
      rintro addr rfl rfl hlast
      exact ha addr ⟨hn, hlast⟩
    · exact h.step_outside hm hn hstep

lemma of_reaches {fs : NodeFs} {threads : ℕ} {s : DropState fs.Node}
    (hr : DropState.Reaches DropState.SparesLeases (DropState.start fs threads) s) :
    DropInv s := by
  induction hr with
  | refl => exact .start fs threads
  | tail _ hstep ih =>
    obtain ⟨a, ha, hs⟩ := hstep
    exact ih.next ha hs

/-- A payload that is dropped with the mutex held was reclaimed by another function than
`NodeRef::drop`. -/
lemma reclaimsLast_of_dropsLocked (h : DropInv s) (hd : s.DropsLocked n) :
    ∃ addr, s.ReclaimsLast n addr := by
  obtain ⟨addr, rest, hn, hlast, hm⟩ := hd
  have hin := h.inside n _ hn hm
  generalize hts : Glue.dropArc addr :: rest = us at hin
  cases hin with
  | lastArc addr' =>
    obtain ⟨heq, rfl⟩ := List.cons.inj hts
    exact ⟨addr, hn, hlast⟩
  | dropArc addr' hout =>
    obtain ⟨heq, rfl⟩ := List.cons.inj hts
    obtain rfl := Glue.dropArc.inj heq
    exact absurd hlast (h.strong_ne_one hn)
  | _ => cases hts

lemma moves (h : DropInv s) (hts : ∃ ts ∈ s.todo, ts ≠ []) : ∃ n s', s.run n = some s' := by
  have hstep : ∀ {n : ℕ} {g : Glue N} {rest : List (Glue N)}, s.todo[n]? = some (g :: rest) →
      (g = .lock → s.mutex = none) → ∃ n s', s.run n = some s' := by
    intro n g rest hn hlock
    refine ⟨n, ?_⟩
    rw [DropState.run_eq hn]
    cases g with
    | lock => exact ⟨_, if_pos (hlock rfl)⟩
    | maybeDrop id =>
      unfold DropState.step
      dsimp only
      split
      · split
        · exact ⟨_, rfl⟩
        · exact ⟨_, rfl⟩
      · exact ⟨_, rfl⟩
    | dropArc addr =>
      unfold DropState.step
      dsimp only
      split
      · exact ⟨_, rfl⟩
      · exact ⟨_, rfl⟩
    | _ => exact ⟨_, rfl⟩
  cases hm : s.mutex with
  | none =>
    obtain ⟨ts, hmem, hne⟩ := hts
    obtain ⟨n, hlt, rfl⟩ := List.getElem_of_mem hmem
    obtain ⟨g, rest, heq⟩ := List.exists_cons_of_ne_nil hne
    exact hstep (n := n) (by rw [List.getElem?_eq_getElem hlt, heq]) fun _ => hm
  | some m =>
    obtain ⟨ts, hget⟩ : ∃ ts, s.todo[m]? = some ts :=
      ⟨_, List.getElem?_eq_getElem (h.holder m hm)⟩
    cases h.inside m _ hget hm with
    | _ => exact hstep hget nofun

end DropInv

/-! ## Cascades come to an end -/

/-- What a piece of code can still cause. -/
def Glue.weight : Glue N → ℕ
  | .dropRef _ => 7
  | .maybeDrop _ => 2
  | .stmt (.insert _ _ leases) => 1 + 7 * leases.length
  | _ => 1

lemma sum_weight_dropRef (ls : List Lease) :
    ((ls.map (Glue.dropRef (N := N))).map Glue.weight).sum = 7 * ls.length := by
  induction ls with
  | nil => rfl
  | cons r ls ih =>
    rw [List.map_cons, List.map_cons, List.sum_cons, ih, List.length_cons]
    simp only [Glue.weight]
    omega

namespace DropState

variable {s s' : DropState N} {n : ℕ}

/-- What the threads can still do without new calls. -/
def energy (s : DropState N) : ℕ :=
  weigh Glue.weight s.todo + 7 * s.owned.length

lemma length_owned (s : DropState N) (addr : ℕ) :
    (s.ownedBy addr).length + (s.owned.filter fun x => x.1 ≠ addr).length = s.owned.length := by
  have hperm := (List.filter_append_perm (fun x => decide (x.1 = addr)) s.owned).length_eq
  rw [List.length_append] at hperm
  simpa only [ownedBy, List.length_map, ne_eq, decide_not] using hperm

/-- Every step uses up energy. -/
lemma energy_run (h : s.run n = some s') : s'.energy < s.energy := by
  obtain ⟨g, rest, hn, hs⟩ := run_cases h
  obtain ⟨E, hE, hE'⟩ := weigh_set Glue.weight hn
  rw [List.map_cons, List.sum_cons] at hE
  have hless : ∀ {s' : DropState N} {ts' : List (Glue N)}, s'.todo = s.todo.set n ts' →
      (ts'.map Glue.weight).sum + 7 * s'.owned.length <
        g.weight + (rest.map Glue.weight).sum + 7 * s.owned.length → s'.energy < s.energy := by
    intro s' ts' htodo hlt
    rw [energy, energy, htodo, hE', hE]
    omega
  have hdone : ∀ {s' : DropState N}, s'.todo = s.todo.set n rest → s'.owned = s.owned →
      s'.energy < s.energy := by
    intro s' htodo howned
    have hpos : 0 < g.weight := by
      cases g with
      | stmt i =>
        cases i with
        | insert payload parent leases => exact Nat.add_pos_left Nat.one_pos _
        | _ => exact Nat.one_pos
      | dropRef r => exact Nat.succ_pos 6
      | maybeDrop id => exact Nat.succ_pos 1
      | _ => exact Nat.one_pos
    refine hless htodo ?_
    rw [howned]
    omega
  cases g with
  | lock =>
    unfold step at hs
    dsimp only at hs
    split at hs
    · obtain rfl := Option.some.inj hs
      exact hdone rfl rfl
    · cases hs
  | unlock | lower | giveBack =>
    obtain rfl := Option.some.inj hs
    exact hdone rfl rfl
  | stmt i =>
    obtain rfl := Option.some.inj hs
    cases i with
    | get id =>
      unfold exec
      dsimp only
      split
      · exact hdone rfl rfl
      · exact hdone rfl rfl
    | insert payload parent leases =>
      unfold exec
      dsimp only
      split
      · refine hless rfl ?_
        simp only [goesOn, Glue.weight, List.length_append, List.length_map]
        omega
      · refine hless rfl ?_
        simp only [goesOn, Glue.weight, List.map_append, List.sum_append, sum_weight_dropRef]
        omega
    | incr c id =>
      unfold exec
      dsimp only
      split
      · exact hdone rfl rfl
      · exact hdone rfl rfl
    | reparent | contains => exact hdone rfl rfl
  | maybeDrop id =>
    unfold step at hs
    dsimp only at hs
    split at hs
    · split at hs
      · obtain rfl := Option.some.inj hs
        refine hless rfl ?_
        simp only [goesOn, Glue.weight, List.map_cons, List.sum_cons]
        omega
      · obtain rfl := Option.some.inj hs
        exact hdone rfl rfl
    · obtain rfl := Option.some.inj hs
      exact hdone rfl rfl
  | dropArc addr =>
    unfold step at hs
    dsimp only at hs
    split at hs
    · obtain rfl := Option.some.inj hs
      refine hless rfl ?_
      have hlen := s.length_owned addr
      simp only [goesOn, Glue.weight, List.map_append, List.sum_append, sum_weight_dropRef]
      omega
    · obtain rfl := Option.some.inj hs
      exact hdone rfl rfl
  | dropRef r =>
    obtain rfl := Option.some.inj hs
    refine hless rfl ?_
    simp only [goesOn, Glue.weight, List.map_cons, List.sum_cons]
    omega

lemma acc_run (s : DropState N) : Acc (fun s₁ s₀ => ∃ n, s₀.run n = some s₁) s := by
  refine Subrelation.accessible ?_ (InvImage.accessible energy (Nat.lt_wfRel.wf.apply s.energy))
  rintro s₁ s₀ ⟨n, hrun⟩
  exact energy_run hrun

end DropState

/-! ## Main result -/

lemma DropInv.unblocked {s : DropState N} (h : DropInv s) : s.Unblocked := by
  refine ⟨?_, ?_, h.moves, s.acc_run⟩
  · rintro n ⟨rest, hn, hm⟩
    cases h.inside n _ hn hm
  · intro n r rest hn hm
    cases h.inside n _ hn hm

/-- Another function than `NodeRef::drop` drops a payload that owns a `NodeRef`: the thread waits
for itself. -/
lemma DropInv.waitsForItself {s : DropState N} {n addr : ℕ} (h : DropInv s)
    (hlast : s.ReclaimsLast n addr) (howned : s.ownedBy addr ≠ []) :
    ∃ s₁ s₂, s.run n = some s₁ ∧ s₁.run n = some s₂ ∧ s₂.WaitsForItself n := by
  obtain ⟨hn, hstrong⟩ := hlast
  have hlt : n < s.todo.length := (List.getElem?_eq_some_iff.mp hn).1
  have hm : s.mutex = some n := by
    by_contra hm
    cases h.outside n _ hn hm with
    | dropArc _ hout => cases hout
  obtain ⟨r, rs, heq⟩ := List.exists_cons_of_ne_nil howned
  have hrun : s.run n = some ({ s with
      strong := Function.update s.strong addr (s.strong addr - 1)
      owned := s.owned.filter fun x => x.1 ≠ addr }.goesOn n
        (.dropRef r :: (rs.map Glue.dropRef ++ [Glue.unlock]))) := by
    rw [DropState.run_eq hn]
    unfold DropState.step
    simp only [hstrong, if_true, heq, List.map_cons, List.cons_append]
  refine ⟨_, _, hrun, (DropState.run_eq (List.getElem?_set_self hlt)).trans rfl, ?_⟩
  refine ⟨_, List.getElem?_set_self ?_, hm⟩
  rw [DropState.goesOn, List.length_set]
  exact hlt

namespace DropState

variable {N : Type}

/-- The state after a list of actions that pass a check. -/
def runs (check : DropState N → DropAction N → Bool) (s : DropState N) :
    List (DropAction N) → Option (DropState N)
  | [] => some s
  | a :: as => if check s a then (s.next a).bind fun s' => s'.runs check as else none

lemma reaches_of_runs {allow : DropState N → DropAction N → Prop}
    {check : DropState N → DropAction N → Bool}
    (hcheck : ∀ s a, check s a = true → allow s a) {s s' : DropState N}
    {as : List (DropAction N)} (h : s.runs check as = some s') :
    Reaches allow s s' := by
  induction as generalizing s with
  | nil =>
    obtain rfl := Option.some.inj h
    exact .refl
  | cons a as ih =>
    unfold runs at h
    split at h
    · next ha =>
      obtain ⟨s₁, hs₁, hrest⟩ := Option.bind_eq_some_iff.mp h
      exact .head ⟨a, hcheck s a ha, hs₁⟩ (ih hrest)
    · cases h

/-- A thread calls a function and runs so many pieces of code. -/
private def calls (n m : ℕ) (f : TableCall N) : List (DropAction N) :=
  .call n f :: List.replicate m (.run n)

/-- The check behind `SparesLeases`. -/
private def sparesLeasesCheck (s : DropState N) : DropAction N → Bool
  | .run n =>
    match s.todo[n]? with
    | some [.dropArc addr, .unlock] => s.strong addr ≠ 1 ∨ s.ownedBy addr = []
    | _ => true
  | .call _ _ => true

private lemma sparesLeases_of_check (s : DropState N) (a : DropAction N)
    (h : s.sparesLeasesCheck a = true) : s.SparesLeases a := by
  cases a with
  | call n f => trivial
  | run n =>
    rintro addr ⟨hn, hlast⟩
    unfold sparesLeasesCheck at h
    simp only [hn] at h
    rcases of_decide_eq_true h with hne | hnone
    · exact absurd hlast hne
    · exact hnone

/-- The second node owns a `NodeRef` of the first one, and the first one has no name. -/
private def family : List (DropAction Sample.fs.Node) :=
  calls 0 3 (.insert (7 : ℕ) 1 []) ++ calls 0 3 (.get 2) ++
    calls 0 3 (.insert (8 : ℕ) 2 [⟨2, 1⟩]) ++ calls 0 4 (.removeLink 2)

/-- The second node is unlinked, and a `NodeRef` of it is dropped. -/
private def orphaned : List (DropAction Sample.fs.Node) :=
  calls 0 3 (.get 3) ++ calls 0 4 (.removeLink 3) ++ calls 0 14 (.drop ⟨3, 2⟩)

/-- The second node is looked up, unlinked and forgotten. -/
private def forgotten : List (DropAction Sample.fs.Node) :=
  calls 0 3 (.addLookup 3) ++ calls 0 4 (.removeLink 3) ++ calls 0 5 (.forget 3 1)

/-- The state after such actions. -/
private def later (check : DropState Sample.fs.Node → DropAction Sample.fs.Node → Bool)
    (as : List (DropAction Sample.fs.Node)) : DropState Sample.fs.Node :=
  ((start Sample.fs 1).runs check as).getD (start Sample.fs 1)

private lemma reaches_later
    {allow : DropState Sample.fs.Node → DropAction Sample.fs.Node → Prop}
    {check : DropState Sample.fs.Node → DropAction Sample.fs.Node → Bool}
    (hcheck : ∀ s a, check s a = true → allow s a) {as : List (DropAction Sample.fs.Node)}
    (h : ((start Sample.fs 1).runs check as).isSome = true) :
    Reaches allow (start Sample.fs 1) (later check as) := by
  obtain ⟨s, hs⟩ := Option.isSome_iff_exists.mp h
  unfold later
  rw [hs]
  exact reaches_of_runs hcheck hs

end DropState

open DropState

end TypedFuse
