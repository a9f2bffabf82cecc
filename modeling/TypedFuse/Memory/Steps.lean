import TypedFuse.Memory.Callbacks
import TypedFuse.Memory.View

/-!
# What the steps of a callback do to the view

`View.Holds` says of a view how many links the nodes have and what the cells of those with links
show.  `Does` follows a callback of a request that changes names through views: reading and writing
a node with links, making a node, and adding and removing links each have one lemma, and the
callbacks are put together from these.
-/

namespace TypedFuse

open Conc Conc.Service NodeTable TypedFuse.Runtime

namespace MemoryFs

/-! ## Requests that change names -/

/-- Requests that change names exclude each other, and the nodes that they name have links. -/
def exclusion (uid gid : ℕ) (made : SystemTime) : Exclusion (service (fs uid gid made)) View where
  writes := changesNames
  view := view
  ready := fun req w => ∀ id ∈ Tree.named req, 0 < w.links id

/-- What is known of every state. -/
def Sane (s : RtState sig) : Prop := s.table.WF

variable {uid gid : ℕ} {made : SystemTime} {n : ℕ} {w : View} {α β : Type}

/-- Whatever a callback does from the view `w`, it ends in `Q`. -/
def Does (uid gid : ℕ) (made : SystemTime) (n : ℕ) (w : View) (p : Callback α)
    (Q : α → View → Prop) : Prop :=
  (exclusion uid gid made).Acts Sane n w (call (σ := sig) p) Q

namespace Does

lemma ret {a : α} {Q : α → View → Prop} (h : Q a w) : Does uid gid made n w (.ret a) Q := h

lemma mono {p : Callback α} {Q Q' : α → View → Prop} (h : Does uid gid made n w p Q)
    (hQ : ∀ a w', Q a w' → Q' a w') : Does uid gid made n w p Q' :=
  Exclusion.Acts.mono h hQ

lemma bind {p : Callback α} {f : α → Callback β} {Q : α → View → Prop}
    {R : β → View → Prop} (h : Does uid gid made n w p Q)
    (hf : ∀ a w', Q a w' → Does uid gid made n w' (f a) R) :
    Does uid gid made n w (p >>= f) R := by
  unfold Does
  rw [call_bind]
  exact Exclusion.Acts.bind h hf

/-- A single instruction. -/
lemma perform {i : FsInstr sig} {Q : i.Resp → View → Prop}
    (h : ∀ (s s' : RtState sig) ch r, s.table.WF → view s = w →
      s.execFs n i ch = some (r, s') →
      Q r (view s')) : Does uid gid made n w (Prog.perform i) Q := by
  intro s ch r s' hs hw he
  exact h s s' ch r hs hw he

/-- Both branches of a conditional. -/
lemma ite {c : Prop} {_ : Decidable c} {p q : Callback α} {Q : α → View → Prop}
    (hp : c → Does uid gid made n w p Q) (hq : ¬c → Does uid gid made n w q Q) :
    Does uid gid made n w (if c then p else q) Q := by
  split
  · next hc => exact hp hc
  · next hc => exact hq hc

/-- An instruction that leaves the view alone. -/
lemma neutral {i : FsInstr sig} (hi : Neutral (.fs i)) :
    Does uid gid made n w (Prog.perform i) fun _ w' => w' = w := by
  refine perform ?_
  rintro s s' ch r _ rfl he
  exact view_neutral_fs hi he

end Does

/-! ## Views -/

/-- The nodes have as many links as `L` says, and the cells of those with links show what `A`
says. -/
structure View.Holds (w : View) (L : NodeId → ℕ) (A : NodeId → Shape) : Prop where
  links : ∀ id, w.links id = L id
  shown : ∀ {id}, 0 < L id → ∃ c, w.cellOf id = some c ∧ w.cell c = some (A id)
  linked : ∀ {id c}, w.cellOf id = some c → 0 < L id
  distinct : ∀ {i j c}, w.cellOf i = some c → w.cellOf j = some c → i = j
  fresh : ∀ {c v}, w.cell c = some v → c < w.next

namespace View.Holds

variable {L L' : NodeId → ℕ} {A A' : NodeId → Shape}

/-- What counts are the links and the cells of the nodes that have links. -/
lemma congr (h : w.Holds L A) (hL : ∀ id, L' id = L id) (hA : ∀ id, 0 < L id → A' id = A id) :
    w.Holds L' A' where
  links := fun id => (h.links id).trans (hL id).symm
  shown := by
    intro id hid
    rw [hL] at hid
    rw [hA id hid]
    exact h.shown hid
  linked := by
    intro id c hc
    rw [hL]
    exact h.linked hc
  distinct := h.distinct
  fresh := h.fresh

/-- Writing the cell of a node. -/
lemma write (h : w.Holds L A) {id c : ℕ} (hc : w.cellOf id = some c) (v : Shape) :
    ({ w with cell := Function.update w.cell c (some v) } : View).Holds L
      (Function.update A id v) where
  links := h.links
  shown := by
    intro j hj
    obtain ⟨k, hk, hshow⟩ := h.shown hj
    refine ⟨k, hk, ?_⟩
    change Function.update w.cell c (some v) k = _
    by_cases hjid : j = id
    · subst hjid
      obtain rfl := Option.some.inj (hk.symm.trans hc)
      rw [Function.update_self, Function.update_self]
    · have hne : k ≠ c := by
        rintro rfl
        exact hjid (h.distinct hk hc)
      rw [Function.update_of_ne hne, Function.update_of_ne hjid, hshow]
  linked := h.linked
  distinct := h.distinct
  fresh := by
    intro k v' hk
    change Function.update w.cell c (some v) k = some v' at hk
    by_cases hkc : k = c
    · subst hkc
      obtain ⟨c', hc', hshow⟩ := h.shown (h.linked hc)
      obtain rfl := Option.some.inj (hc'.symm.trans hc)
      exact h.fresh hshow
    · rw [Function.update_of_ne hkc] at hk
      exact h.fresh hk

/-- Other link counts, of which only one changes. -/
lemma relinked (h : w.Holds L A) {w' : View} {id m : ℕ}
    (hlinks : ∀ i, w'.links i = Function.update L id m i) (hcell : w'.cell = w.cell)
    (hnext : w'.next = w.next)
    (hcells : ∀ i, w'.cellOf i = if Function.update L id m i = 0 then none else w.cellOf i)
    (hpos : 0 < L id) : w'.Holds (Function.update L id m) A where
  links := hlinks
  shown := by
    intro i hi
    have hold : 0 < L i := by
      by_cases hid : i = id
      · rw [hid]
        exact hpos
      · rwa [Function.update_of_ne hid] at hi
    obtain ⟨c, hc, hshow⟩ := h.shown hold
    refine ⟨c, ?_, ?_⟩
    · rw [hcells, if_neg hi.ne', hc]
    · rw [hcell, hshow]
  linked := by
    intro i c hc
    rw [hcells] at hc
    split at hc
    · cases hc
    · next hne => exact Nat.pos_of_ne_zero hne
  distinct := by
    intro i j c hi hj
    rw [hcells] at hi hj
    split at hi
    · cases hi
    · split at hj
      · cases hj
      · exact h.distinct hi hj
  fresh := by
    intro c v hc
    rw [hcell] at hc
    rw [hnext]
    exact h.fresh hc

end View.Holds

/-! ## Steps -/

namespace Does

variable {L : NodeId → ℕ} {A : NodeId → Shape}

/-- `SystemTime::now`. -/
lemma now : Does uid gid made n w now fun _ w' => w' = w :=
  neutral (i := .own Instr.now) trivial

lemma dropRef (ref : NodeRef sig.Node) :
    Does uid gid made n w (Prog.perform (FsInstr.dropRef (σ := sig) ref)) fun _ w' => w' = w :=
  neutral trivial

/-- The cell of a node with links in the table. -/
lemma slot_of_cellOf {s : RtState sig} {id c : ℕ} (h : (view s).cellOf id = some c) :
    ∃ sl, s.table.slot id = some sl ∧ sl.record.payload = c ∧
      0 < s.table.count .links id := by
  change (if 0 < s.table.count .links id then cellIn s.table id else none) = some c at h
  split at h
  · next hpos =>
    obtain ⟨sl, hsl⟩ := slot_of_count_pos hpos
    rw [cellIn_of_slot hsl] at h
    exact ⟨sl, hsl, Option.some.inj h, hpos⟩
  · cases h

/-- `Cx::get` of a node that has links. -/
lemma get {id c : ℕ} (hc : w.cellOf id = some c) :
    Does uid gid made n w (Prog.perform (FsInstr.get (σ := sig) id)) fun r w' =>
      w' = w ∧ ∃ ref, r = some ref ∧ ref.record.payload = c := by
  refine perform ?_
  rintro s s' ch r _ rfl he
  refine ⟨view_neutral_fs (i := .get id) trivial he, ?_⟩
  obtain ⟨sl, hsl, hpayload, _⟩ := slot_of_cellOf hc
  obtain ⟨⟨o, t'⟩, hget, heq⟩ := Option.map_eq_some_iff.mp he
  obtain ⟨rfl, _⟩ := Prod.mk.inj heq
  rcases Leased.get_cases hget with ⟨_, hdead, _⟩ | ⟨sl', rfl, hsl', _⟩
  · rw [hsl] at hdead
    cases hdead
  · obtain rfl := Option.some.inj (hsl.symm.trans hsl')
    exact ⟨_, rfl, hpayload⟩

/-- A section on a node that has links. -/
lemma visit {id c : ℕ} (hc : w.cellOf id = some c) {guarded : ℕ → Callback α}
    {Q : α → View → Prop} (hg : Does uid gid made n w (guarded c) Q) :
    Does uid gid made n w (visit id guarded) fun r w' => ∃ a, r = some a ∧ Q a w' := by
  refine (get hc).bind ?_
  rintro r _ ⟨rfl, ref, rfl, rfl⟩
  refine hg.bind ?_
  intro a w' ha
  refine (dropRef ref).bind ?_
  rintro _ _ rfl
  exact ret ⟨a, rfl, ha⟩

/-- A section under the read guard of a cell. -/
lemma readCell {c : ℕ} {v : Shape} (hc : w.cell c = some v) :
    Does uid gid made n w (own (.read c)) fun d w' => w' = w ∧ NodeData.shape d = v := by
  refine perform ?_
  rintro s s' ch d _ rfl he
  refine ⟨view_neutral_fs (i := .own (Instr.read c)) trivial he, ?_⟩
  cases ch with
  | none => cases he
  | some ch =>
    obtain ⟨⟨d', h'⟩, hexec, heq⟩ := Option.map_eq_some_iff.mp he
    obtain ⟨rfl, _⟩ := Prod.mk.inj heq
    obtain ⟨d₀, hd₀, heq⟩ := Option.map_eq_some_iff.mp hexec
    obtain ⟨rfl, _⟩ := Prod.mk.inj heq
    have hshape : shapes s.fs c = some d₀.shape := congrArg (Option.map NodeData.shape) hd₀
    exact Option.some.inj (hshape.symm.trans hc)

/-- A section under the read guard of a node that has links. -/
lemma readNode (h : w.Holds L A) {id : ℕ} (hid : 0 < L id) :
    Does uid gid made n w (readNode id) fun r w' =>
      w' = w ∧ ∃ d, r = some d ∧ NodeData.shape d = A id := by
  obtain ⟨c, hc, hshow⟩ := h.shown hid
  refine (visit hc (readCell hshow)).mono ?_
  rintro r w' ⟨d, rfl, rfl, hd⟩
  exact ⟨rfl, d, rfl, hd⟩

/-- A section under the write guard of a cell. -/
lemma writeCell {c : ℕ} {v : Shape} (hc : w.cell c = some v) (u : Update) :
    Does uid gid made n w (own (.write c u)) fun r w' =>
      w' = { w with cell := Function.update w.cell c (some (u.onShape v)) } ∧
        ∃ d d', NodeData.shape d = v ∧ d.update u = some (r, d') := by
  refine perform ?_
  rintro s s' ch r _ rfl he
  cases ch with
  | none => cases he
  | some ch =>
    obtain ⟨⟨r', h'⟩, hexec, heq⟩ := Option.map_eq_some_iff.mp he
    obtain ⟨rfl, rfl⟩ := Prod.mk.inj heq
    obtain ⟨d, hd, hupdate⟩ := Option.bind_eq_some_iff.mp hexec
    obtain ⟨⟨r'', d'⟩, hd', heq⟩ := Option.map_eq_some_iff.mp hupdate
    obtain ⟨rfl, rfl⟩ := Prod.mk.inj heq
    have hshape : shapes s.fs c = some d.shape := congrArg (Option.map NodeData.shape) hd
    obtain rfl := Option.some.inj (hshape.symm.trans hc)
    refine ⟨?_, d, d', rfl, hd'⟩
    rw [← shape_update hd']
    exact view_write s c d'

/-- A section under the write guard of a node that has links. -/
lemma writeNode (h : w.Holds L A) {id : ℕ} (hid : 0 < L id) (u : Update) :
    Does uid gid made n w (writeNode id u) fun r w' =>
      w'.Holds L (Function.update A id (u.onShape (A id))) ∧
        ∃ a d d', r = some a ∧ NodeData.shape d = A id ∧ d.update u = some (a, d') := by
  obtain ⟨c, hc, hshow⟩ := h.shown hid
  refine (visit hc (writeCell hshow u)).mono ?_
  rintro r w' ⟨a, rfl, rfl, d, d', hd, hd'⟩
  exact ⟨h.write hc _, a, d, d', rfl, hd, hd'⟩

/-- A new cell that belongs to no node. -/
structure Pending (w : View) (c : ℕ) (v : Shape) : Prop where
  cell : w.cell c = some v
  free : ∀ id, w.cellOf id ≠ some c

/-- Putting the data of a new node behind a lock. -/
lemma alloc (h : w.Holds L A) (d : NodeData) :
    Does uid gid made n w (own (.alloc d)) fun c w' => w'.Holds L A ∧ Pending w' c d.shape := by
  refine perform ?_
  rintro s s' ch c _ rfl he
  cases ch with
  | none => cases he
  | some ch =>
    obtain ⟨rfl, rfl⟩ := Prod.mk.inj (Option.some.inj he)
    have hcell : ∀ k, shapes ⟨s.fs.cells.insert s.fs.next d, s.fs.next + 1⟩ k =
        Function.update (shapes s.fs) s.fs.next (some d.shape) k :=
      fun k => congrFun (shapes_insert s.fs s.fs.next d (s.fs.next + 1)) k
    have hnew : ∀ id c, (view s).cellOf id = some c → c < s.fs.next := by
      intro id c hc
      obtain ⟨c', hc', hshow⟩ := h.shown (h.linked hc)
      obtain rfl := Option.some.inj (hc'.symm.trans hc)
      exact h.fresh hshow
    refine ⟨⟨h.links, ?_, h.linked, h.distinct, ?_⟩, ?_, ?_⟩
    · intro id hid
      obtain ⟨c, hc, hshow⟩ := h.shown hid
      refine ⟨c, hc, (hcell c).trans ?_⟩
      rw [Function.update_of_ne (hnew id c hc).ne]
      exact hshow
    · intro k v hk
      have hk' := (hcell k).symm.trans hk
      change k < s.fs.next + 1
      by_cases hkn : k = s.fs.next
      · omega
      · rw [Function.update_of_ne hkn] at hk'
        exact Nat.lt_succ_of_lt (h.fresh hk')
    · exact (hcell _).trans (Function.update_self ..)
    · intro id hid
      exact absurd (hnew id _ hid) (lt_irrefl _)

/-- A node with one link more: the rest stays. -/
lemma linkedCell_of_links {t t' : NodeTable sig.Node} {i : NodeId}
    (hlinks : 0 < t'.count .links i) (hpos : 0 < t.count .links i) {sl sl' : Slot sig.Node}
    (hsl : t.slot i = some sl) (hsl' : t'.slot i = some sl') (hrec : sl'.record = sl.record) :
    linkedCell t' i = linkedCell t i := by
  unfold linkedCell
  rw [if_pos hlinks, if_pos hpos, cellIn_of_slot hsl, cellIn_of_slot hsl', hrec]

/-- Making a node of a new cell. -/
lemma insert (h : w.Holds L A) {c : ℕ} {v : Shape} (hc : Pending w c v) (parent : NodeId) :
    Does uid gid made n w (Prog.perform (FsInstr.insert (σ := sig) c parent)) fun id w' =>
      L id = 0 ∧ w'.Holds (Function.update L id 1) (Function.update A id v) := by
  refine perform ?_
  rintro s s' ch id hwf rfl he
  obtain ⟨⟨id', t'⟩, hins, heq⟩ := Option.map_eq_some_iff.mp he
  obtain ⟨rfl, rfl⟩ := Prod.mk.inj heq
  have hdead := hwf.insert_dead hins
  have hzero : s.table.count .links id' = 0 := count_of_dead hdead .links
  have hcount := count_links_insert hwf hins
  obtain ⟨gen, hslot⟩ := slot_insert hins
  have hself : linkedCell t' id' = some c := by
    unfold linkedCell
    rw [hcount, if_pos rfl, if_pos (Nat.succ_pos _),
      cellIn_of_slot ((hslot id').trans (if_pos rfl))]
    rfl
  have hother : ∀ i, i ≠ id' → linkedCell t' i = linkedCell s.table i := by
    intro i hi
    unfold linkedCell cellIn
    rw [hcount, if_neg hi, Nat.add_zero, hslot, if_neg hi]
  refine ⟨(h.links id').symm.trans hzero, ?_, ?_, ?_, ?_, h.fresh⟩
  · intro i
    refine (hcount i).trans ?_
    by_cases hi : i = id'
    · subst hi
      rw [if_pos rfl, Function.update_self, hzero]
    · rw [if_neg hi, Function.update_of_ne hi]
      exact h.links i
  · intro i hi
    by_cases hid : i = id'
    · subst hid
      refine ⟨c, hself, ?_⟩
      rw [Function.update_self]
      exact hc.cell
    · rw [Function.update_of_ne hid] at hi ⊢
      obtain ⟨k, hk, hshow⟩ := h.shown hi
      exact ⟨k, (hother i hid).trans hk, hshow⟩
  · intro i k hk
    by_cases hid : i = id'
    · subst hid
      rw [Function.update_self]
      exact Nat.one_pos
    · rw [Function.update_of_ne hid]
      exact h.linked ((hother i hid).symm.trans hk)
  · intro i j k hi hj
    by_cases hii : i = id'
    · by_cases hjj : j = id'
      · rw [hii, hjj]
      · subst hii
        obtain rfl := Option.some.inj (hself.symm.trans hi)
        exact absurd ((hother j hjj).symm.trans hj) (hc.free j)
    · by_cases hjj : j = id'
      · subst hjj
        obtain rfl := Option.some.inj (hself.symm.trans hj)
        exact absurd ((hother i hii).symm.trans hi) (hc.free i)
      · exact h.distinct ((hother i hii).symm.trans hi) ((hother j hjj).symm.trans hj)

/-- A node gets one link more. -/
lemma addLink (h : w.Holds L A) {id : ℕ} (hid : 0 < L id) :
    Does uid gid made n w (Prog.perform (FsInstr.addLink (σ := sig) id)) fun _ w' =>
      w'.Holds (Function.update L id (L id + 1)) A := by
  refine perform ?_
  rintro s s' ch r _ rfl he
  obtain ⟨t', hadd, heq⟩ := Option.map_eq_some_iff.mp he
  obtain ⟨_, rfl⟩ := Prod.mk.inj heq
  obtain ⟨⟨o, t''⟩, hinc, rfl⟩ := Option.map_eq_some_iff.mp hadd
  have hlive : 0 < s.table.count .links id := by
    rw [← h.links id] at hid
    exact hid
  obtain ⟨sl, hsl⟩ := slot_of_count_pos hlive
  have hsome : o.isSome := by
    rcases incr_cases hinc with ⟨_, hdead, _⟩ | ⟨sl', rfl, _, _⟩
    · rw [hsl] at hdead
      cases hdead
    · rfl
  have hcount : ∀ i, t''.count .links i = Function.update L id (L id + 1) i := by
    intro i
    rw [count_incr hinc]
    have hold : s.table.count .links i = L i := h.links i
    rw [hold, Function.update_apply]
    by_cases hi : i = id
    · rw [if_pos ⟨rfl, hi, hsome⟩, if_pos hi, hi]
    · rw [if_neg fun hc => hi hc.2.1, if_neg hi, Nat.add_zero]
  refine h.relinked hcount rfl rfl ?_ hid
  intro i
  change linkedCell t'' i = if _ then none else linkedCell s.table i
  rw [← hcount]
  split
  · next hzero =>
    unfold linkedCell
    rw [if_neg (by omega)]
  · next hne =>
    have hpos : 0 < s.table.count .links i := by
      by_cases hi : i = id
      · rw [hi]
        exact hlive
      · rw [count_incr hinc, if_neg fun hc => hi hc.2.1] at hne
        omega
    obtain ⟨sl₀, hsl₀⟩ := slot_of_count_pos hpos
    have hsl' := slot_incr hinc (i := i)
    rw [hsl₀] at hsl'
    refine linkedCell_of_links (Nat.pos_of_ne_zero hne) hpos hsl₀ hsl' ?_
    split
    · exact Slot.setCounter_record _ _ _
    · rfl

/-- A node loses one link. -/
lemma removeLink (h : w.Holds L A) {id : ℕ} (hid : 0 < L id) :
    Does uid gid made n w (Prog.perform (FsInstr.removeLink (σ := sig) id)) fun _ w' =>
      w'.Holds (Function.update L id (L id - 1)) A := by
  refine perform ?_
  rintro s s' ch r _ rfl he
  obtain ⟨_, rfl⟩ := Prod.mk.inj (Option.some.inj he)
  have hold : ∀ i, s.table.count .links i = L i := h.links
  have hcount : ∀ i,
      (s.table.removeLink id).count .links i = Function.update L id (L id - 1) i := by
    intro i
    unfold NodeTable.removeLink
    rw [count_decr, hold, Function.update_apply]
    by_cases hi : i = id
    · rw [if_pos ⟨rfl, hi⟩, if_pos hi, hi]
    · rw [if_neg fun hc => hi hc.2, if_neg hi, Nat.sub_zero]
  refine h.relinked hcount rfl rfl ?_ hid
  intro i
  change linkedCell (s.table.removeLink id) i = if _ then none else linkedCell s.table i
  rw [← hcount]
  split
  · next hzero =>
    unfold linkedCell
    rw [if_neg (by omega)]
  · next hne =>
    have hpos := Nat.pos_of_ne_zero hne
    obtain ⟨sl', sl, hsl', hsl, heq⟩ := slot_decr_of_count_pos (t := s.table) hpos
    have hpos₀ : 0 < s.table.count .links i := by
      rw [hold]
      rw [hcount, Function.update_apply] at hpos
      split at hpos
      · next hi => rw [hi]; exact hid
      · exact hpos
    refine linkedCell_of_links hpos hpos₀ hsl hsl' ?_
    rw [heq]
    split
    · exact Slot.setCounter_record _ _ _
    · rfl

end Does

end MemoryFs

end TypedFuse
