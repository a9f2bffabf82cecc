import TypedFuse.Conc.Sequential
import TypedFuse.Core.Frame

/-!
# References in excess of an earlier table

A request that is served alone takes references, gives some of them back and leaves others.
`Exceeds t₀ t X` says that the table `t` is the table `t₀` with the references `X` on top: the
same nodes under the same numbers, and besides them only nodes that live by references of `X`.  When
no reference is left, the two tables have the same slots.

The second half follows the inode table and the filesystem's own state through the scopes of the
runtime, in which a request holds a node or a handle.
-/

namespace TypedFuse

namespace NodeTable

variable {N : Type} {t₀ t t' : NodeTable N} {X X' : Counter → NodeId → ℕ} {c : Counter}
  {id : NodeId}

/-- One reference more. -/
def bump (X : Counter → NodeId → ℕ) (c : Counter) (id : NodeId) :
    Counter → NodeId → ℕ :=
  fun c' i => X c' i + if c' = c ∧ i = id then 1 else 0

/-- The table `t` is `t₀` with the references `X` on top. -/
structure Exceeds (t₀ t : NodeTable N) (X : Counter → NodeId → ℕ) : Prop where
  wf : t.WF
  count : ∀ c i, t.count c i = t₀.count c i + X c i
  /-- A node that was there is the same node, in the same directory. -/
  kept : ∀ i s s', t₀.slot i = some s → t.slot i = some s' →
    s'.record = s.record ∧ s'.generation = s.generation ∧ s'.parent = s.parent

/-- A slot of a well-formed table has a positive counter. -/
lemma WF.exists_count_pos (h : t.WF) {i : NodeId} {s : Slot N} (hs : t.slot i = some s) :
    ∃ c, 0 < t.count c i := by
  by_contra hnot
  have hdrop : s.droppable = true := by
    refine Slot.droppable_iff.mpr ?_
    intro c
    by_contra hne
    refine hnot ⟨c, ?_⟩
    rw [count_of_slot hs]
    exact Nat.pos_of_ne_zero hne
  rw [h.live i s hs] at hdrop
  cases hdrop

namespace Exceeds

lemma refl (h : t.WF) : Exceeds t t fun _ _ => 0 where
  wf := h
  count := fun _ _ => rfl
  kept := by
    intro i s s' hs hs'
    obtain rfl := Option.some.inj (hs.symm.trans hs')
    exact ⟨rfl, rfl, rfl⟩

lemma congr (h : Exceeds t₀ t X) (hX : ∀ c i, X' c i = X c i) : Exceeds t₀ t X' :=
  ⟨h.wf, fun c i => (h.count c i).trans (by rw [hX]), h.kept⟩

/-- A node that was live still is. -/
lemma live (h : Exceeds t₀ t X) (h₀ : t₀.WF) {i : NodeId} {s : Slot N}
    (hs : t₀.slot i = some s) : ∃ s', t.slot i = some s' := by
  obtain ⟨c, hc⟩ := h₀.exists_count_pos hs
  refine slot_of_count_pos (c := c) ?_
  rw [h.count]
  omega

/-- One section that keeps the slots that are live before and after it. -/
lemma step (h : Exceeds t₀ t X) (h₀ : t₀.WF) (hwf : t'.WF)
    (hcount : ∀ c i, t'.count c i = t₀.count c i + X' c i)
    (hkept : ∀ i s s', t.slot i = some s → t'.slot i = some s' →
      s'.record = s.record ∧ s'.generation = s.generation ∧ s'.parent = s.parent) :
    Exceeds t₀ t' X' := by
  refine ⟨hwf, hcount, ?_⟩
  intro i s s' hs hs'
  obtain ⟨s₁, hs₁⟩ := h.live h₀ hs
  obtain ⟨hr, hg, hp⟩ := h.kept i s s₁ hs hs₁
  obtain ⟨hr', hg', hp'⟩ := hkept i s₁ s' hs₁ hs'
  exact ⟨hr'.trans hr, hg'.trans hg, hp'.trans hp⟩

/-- Adding a reference. -/
lemma incr (h : Exceeds t₀ t X) (h₀ : t₀.WF) {s : Slot N}
    (hi : t.incr c id = some (some s, t')) : Exceeds t₀ t' (bump X c id) := by
  refine h.step h₀ (h.wf.incr hi) ?_ ?_
  · intro c' i
    rw [count_incr hi, h.count]
    simp only [bump, Option.isSome_some, and_true]
    omega
  · intro i s₁ s' hs₁ hs'
    rw [slot_incr hi, hs₁, Option.map_some] at hs'
    obtain rfl := Option.some.inj hs'
    split <;> simp

/-- Giving a reference back. -/
lemma decr (h : Exceeds t₀ t (bump X c id)) (h₀ : t₀.WF) :
    Exceeds t₀ (t.decr c 1 id) X := by
  refine h.step h₀ (h.wf.decr c 1 id) ?_ ?_
  · intro c' i
    rw [count_decr, h.count]
    simp only [bump]
    split <;> omega
  · intro i s₁ s' hs₁ hs'
    obtain ⟨s₂, hs₂, rfl⟩ := slot_of_slot_decr hs'
    obtain rfl := Option.some.inj (hs₁.symm.trans hs₂)
    split <;> simp

/-- A new node lives by its link. -/
lemma insert (h : Exceeds t₀ t X) (h₀ : t₀.WF) {payload : N} {parent : NodeId}
    (hi : t.insert payload parent = some (id, t')) :
    Exceeds t₀ t' (bump X .links id) ∧ t₀.slot id = none := by
  have hdead := h.wf.insert_dead hi
  refine ⟨h.step h₀ (h.wf.insert hi) ?_ ?_, ?_⟩
  · intro c' i
    by_cases hc : c' = .links
    · subst hc
      rw [count_links_insert h.wf hi, h.count]
      simp only [bump, true_and]
      omega
    · rw [count_insert h.wf hi hc, h.count, bump, if_neg (fun hand => hc hand.1), add_zero]
  · intro i s₁ s' hs₁ hs'
    obtain ⟨gen, hslot⟩ := slot_insert hi
    have hne : i ≠ id := by
      rintro rfl
      rw [hs₁] at hdead
      cases hdead
    rw [hslot, if_neg hne, hs₁] at hs'
    obtain rfl := Option.some.inj hs'
    exact ⟨rfl, rfl, rfl⟩
  · cases hs : t₀.slot id with
    | none => rfl
    | some s =>
      obtain ⟨s', hs'⟩ := h.live h₀ hs
      rw [hdead] at hs'
      cases hs'

/-- Dropping a `NodeRef` to a node that was there gives its lease back. -/
lemma dropRef (h : Exceeds t₀ t (bump X .leases id)) (h₀ : t₀.WF) {s : Slot N}
    (hs : t₀.slot id = some s) : Exceeds t₀ (t.dropRef ⟨id, s.record⟩) X := by
  obtain ⟨s', hs'⟩ := h.live h₀ hs
  have hrec := (h.kept id s s' hs hs').1
  have hdrop : t.dropRef ⟨id, s.record⟩ = t.decr .leases 1 id :=
    dropRef_eq_decr hs' (by rw [hrec])
  rw [hdrop]
  exact h.decr h₀

/-- Without excess references the slots are the same. -/
lemma slot_eq (h : Exceeds t₀ t fun _ _ => 0) (h₀ : t₀.WF) (i : NodeId) :
    t.slot i = t₀.slot i := by
  have hcount : ∀ c, t.count c i = t₀.count c i := fun c => h.count c i
  cases hs : t₀.slot i with
  | none =>
    cases hs' : t.slot i with
    | none => rfl
    | some s' =>
      obtain ⟨c, hc⟩ := h.wf.exists_count_pos hs'
      rw [hcount, count_of_dead hs] at hc
      exact absurd hc (lt_irrefl 0)
  | some s =>
    obtain ⟨s', hs'⟩ := h.live h₀ hs
    rw [hs']
    obtain ⟨hr, hg, hp⟩ := h.kept i s s' hs hs'
    have heq : ∀ c, s'.counter c = s.counter c := by
      intro c
      rw [← count_of_slot hs', ← count_of_slot hs, hcount]
    have hl := heq .links
    have hk := heq .lookups
    have ho := heq .opens
    have he := heq .leases
    cases s
    cases s'
    simp only [Slot.counter] at hl hk ho he
    simp only at hr hg hp
    rw [hr, hg, hp, hl, hk, ho, he]

end Exceeds

end NodeTable

/-! ## Scopes of the runtime -/

section Scopes

open Conc Conc.Service NodeTable TypedFuse.Runtime

/-- The sections that touch neither the inode table nor the filesystem. -/
def RtInstr.Inert {σ : FsSig} : RtInstr σ → Prop
  | .fs _ | .node _ | .dropNode _ | .lease _ | .grant _ | .retainLookup _ | .forget _ _
  | .addOpen _ | .removeOpen _ => False
  | _ => True

lemma inert_exec {fs : NodeFs} {s s' : RtState fs.toFsSig} {n : ℕ} {i : RtInstr fs.toFsSig}
    {ch : Option fs.Choice} {r : i.Resp} (hi : i.Inert)
    (he : (service fs).exec n i ch s = some (r, s')) :
    s'.table = s.table ∧ s'.fs = s.fs := by
  cases i with
  | fs | node | dropNode | lease | grant | retainLookup | forget | addOpen | removeOpen =>
    exact absurd hi id
  | denote | plusEntry | leak | parentOf | discard | removeHandle =>
    obtain ⟨_, rfl⟩ := Prod.mk.inj (Option.some.inj he)
    exact ⟨rfl, rfl⟩
  | addHandle | findHandle | acquire | deref | dropLease | dropArc | close | drain | take =>
    obtain ⟨_, _, heq⟩ := Option.map_eq_some_iff.mp he
    obtain ⟨_, rfl⟩ := Prod.mk.inj heq
    exact ⟨rfl, rfl⟩

variable {fs : NodeFs} {n : ℕ} {α : Type} {s : RtState fs.toFsSig}

/-- `Accounting::add` looks at the node of an entry. -/
lemma ensures_plusEntry {id : NodeId} {f : Option ℕ → RtProg fs.toFsSig α}
    {Q : α → RtState fs.toFsSig → Prop}
    (hdead : s.table.slot id = none → (service fs).Ensures n s (f none) Q)
    (hlive : ∀ sl, s.table.slot id = some sl →
      (service fs).Ensures n s (f (some sl.generation)) Q) :
    (service fs).Ensures n s (Runtime.sect (.plusEntry id) >>= f) Q := by
  refine Ensures.step ?_
  intro ch g s₁ he
  obtain ⟨hg, rfl⟩ := Prod.mk.inj (Option.some.inj he)
  cases hslot : s.table.slot id with
  | none =>
    rw [hslot] at hg
    exact hg ▸ hdead hslot
  | some sl =>
    rw [hslot] at hg
    exact hg ▸ hlive sl hslot

/-- A lookup is counted if the node is live. -/
lemma addLookup_cases {σ : FsSig} {s s' : RtState σ} {id : NodeId} {g : Option ℕ}
    (h : s.addLookup n id = some (g, s')) :
    (g = none ∧ s.table.slot id = none ∧ s' = s) ∨
      ∃ sl, g = some sl.generation ∧ s.table.slot id = some sl ∧ s'.fs = s.fs ∧
        s'.handles = s.handles ∧ s.table.incr .lookups id = some (some sl, s'.table) := by
  obtain ⟨⟨g', t⟩, hadd, heq⟩ := Option.map_eq_some_iff.mp h
  obtain ⟨rfl, rfl⟩ := Prod.mk.inj heq
  obtain ⟨⟨o, t'⟩, hinc, heq'⟩ := Option.map_eq_some_iff.mp hadd
  obtain ⟨rfl, rfl⟩ := Prod.mk.inj heq'
  rcases incr_cases hinc with ⟨rfl, hslot, rfl⟩ | ⟨sl, rfl, hslot, _⟩
  · exact Or.inl ⟨rfl, hslot, rfl⟩
  · exact Or.inr ⟨sl, rfl, hslot, rfl, rfl, hinc⟩

/-- A lookup of a live node is retained. -/
lemma ensures_retainLookup {id : NodeId} {sl : Slot fs.Node} (hslot : s.table.slot id = some sl)
    {f : Option ℕ → RtProg fs.toFsSig α} {Q : α → RtState fs.toFsSig → Prop}
    (hf : ∀ g s', s'.fs = s.fs → s'.handles = s.handles →
      s.table.incr .lookups id = some (some sl, s'.table) →
      (service fs).Ensures n s' (f (some g)) Q) :
    (service fs).Ensures n s (Runtime.sect (.retainLookup id) >>= f) Q := by
  refine Ensures.step ?_
  intro ch r s₁ he
  rcases addLookup_cases he with ⟨_, hnone, _⟩ | ⟨sl', rfl, hslot', hfs, hh, hinc⟩
  · rw [hslot] at hnone
    cases hnone
  · obtain rfl := Option.some.inj (hslot.symm.trans hslot')
    exact hf _ _ hfs hh hinc

/-- Whatever a program does alone, the inode table and the filesystem end in `Q`. -/
def Leads (fs : NodeFs) (n : ℕ) (s : RtState fs.toFsSig) (p : RtProg fs.toFsSig α)
    (Q : α → NodeTable fs.Node → fs.State → Prop) : Prop :=
  (service fs).Ensures n s p fun a s' => Q a s'.table s'.fs

/-- Whatever a program does alone in steps that meet a condition, the inode table and the filesystem
end in `Q`. -/
def LeadsIf (fs : NodeFs) (ok : RtInstr fs.toFsSig → RtState fs.toFsSig → Prop) (n : ℕ)
    (s : RtState fs.toFsSig) (p : RtProg fs.toFsSig α)
    (Q : α → NodeTable fs.Node → fs.State → Prop) : Prop :=
  (service fs).EnsuresIf ok n s p fun a s' => Q a s'.table s'.fs

namespace LeadsIf

variable {β : Type} {ok : RtInstr fs.toFsSig → RtState fs.toFsSig → Prop}
  {Q : α → NodeTable fs.Node → fs.State → Prop}

lemma ret {a : α} (h : Q a s.table s.fs) : LeadsIf fs ok n s (.ret a) Q := h

lemma bind {p : RtProg fs.toFsSig β} {f : β → RtProg fs.toFsSig α}
    {Q' : β → NodeTable fs.Node → fs.State → Prop} (hp : LeadsIf fs ok n s p Q')
    (hf : ∀ b s', Q' b s'.table s'.fs → LeadsIf fs ok n s' (f b) Q) :
    LeadsIf fs ok n s (p >>= f) Q :=
  EnsuresIf.bind hp hf

/-- An inert section, then the rest. -/
lemma inert {i : RtInstr fs.toFsSig} (hi : i.Inert) {f : i.Resp → RtProg fs.toFsSig α}
    (hf : ∀ r s', s'.table = s.table → s'.fs = s.fs → LeadsIf fs ok n s' (f r) Q) :
    LeadsIf fs ok n s (Runtime.sect i >>= f) Q := by
  refine EnsuresIf.step ?_
  intro _ ch r s' he
  obtain ⟨ht, hfs⟩ := inert_exec hi he
  exact hf r s' ht hfs

/-- `node(ino)?`: the node is not live, or the rest runs with a lease that is then given back. -/
lemma withNode {ino : ℕ} {body : NodeRef fs.Node → RtProg fs.toFsSig (Fallible β)}
    {Q : Fallible β → NodeTable fs.Node → fs.State → Prop}
    (hdead : s.table.slot ino = none → Q (fail .ENOENT) s.table s.fs)
    (hbody : ∀ sl s₁, s.table.slot ino = some sl →
      s.table.incr .leases ino = some (some sl, s₁.table) → s₁.fs = s.fs →
      LeadsIf fs ok n s₁ (body ⟨ino, sl.record⟩) fun r t f =>
        Q r (t.dropRef ⟨ino, sl.record⟩) f) :
    LeadsIf fs ok n s (Runtime.withNode ino body) Q := by
  refine EnsuresIf.step ?_
  intro _ ch r s₁ he
  obtain ⟨⟨o, t₁⟩, hget, heq⟩ := Option.map_eq_some_iff.mp he
  obtain ⟨rfl, rfl⟩ := Prod.mk.inj heq
  rcases Leased.get_cases hget with ⟨rfl, hslot, rfl⟩ | ⟨sl, rfl, hslot, hinc⟩
  · exact hdead hslot
  · refine EnsuresIf.bind (hbody sl _ hslot hinc rfl) ?_
    intro r s₂ hQ
    refine EnsuresIf.step ?_
    intro _ ch _ s₃ he
    obtain ⟨_, rfl⟩ := Prod.mk.inj (Option.some.inj he)
    exact hQ

/-- `file(ino, fh)?` and `dir(ino, fh)?`: the handle is not there, or the rest runs with it. -/
lemma withHandle {k : HandleKind} {ino fh : ℕ}
    {body : fs.Payload k → RtProg fs.toFsSig (Fallible β)}
    {Q : Fallible β → NodeTable fs.Node → fs.State → Prop}
    (hfail : Q (fail .EBADF) s.table s.fs)
    (hbody : ∀ payload s₁, s₁.table = s.table → s₁.fs = s.fs →
      LeadsIf fs ok n s₁ (body payload) Q) :
    LeadsIf fs ok n s (Runtime.withHandle k ino fh body) Q := by
  have hrefused : ∀ (record : HandleArc) (s₁ : RtState fs.toFsSig), s₁.table = s.table →
      s₁.fs = s.fs → LeadsIf fs ok n s₁
        (do Runtime.sect (.dropArc k record); return (fail .EBADF : Fallible β)) Q := by
    intro record s₁ ht hf
    refine inert (by trivial) ?_
    intro _ s₂ ht₂ hf₂
    refine ret ?_
    rw [ht₂, hf₂, ht, hf]
    exact hfail
  refine inert (by trivial) ?_
  intro r s₁ ht₁ hf₁
  cases r with
  | none =>
    refine ret ?_
    rw [ht₁, hf₁]
    exact hfail
  | some record =>
    dsimp only
    split
    · refine inert (by trivial) ?_
      intro granted s₂ ht₂ hf₂
      cases granted with
      | false => exact hrefused record s₂ (ht₂.trans ht₁) (hf₂.trans hf₁)
      | true =>
        refine inert (by trivial) fun _ s₃ ht₃ hf₃ =>
          inert (by trivial) fun payload s₄ ht₄ hf₄ => ?_
        refine bind (hbody payload s₄ ?_ ?_) ?_
        · rw [ht₄, ht₃, ht₂, ht₁]
        · rw [hf₄, hf₃, hf₂, hf₁]
        · intro result s₅ hQ
          refine inert (by trivial) fun _ s₆ ht₆ hf₆ =>
            inert (by trivial) fun _ s₇ ht₇ hf₇ => ret ?_
          rw [ht₇, hf₇, ht₆, hf₆]
          exact hQ
    · exact hrefused record s₁ ht₁ hf₁

end LeadsIf

namespace Leads

variable {β : Type} {Q : α → NodeTable fs.Node → fs.State → Prop}

lemma iff_true {p : RtProg fs.toFsSig α} :
    Leads fs n s p Q ↔ LeadsIf fs (fun _ _ => True) n s p Q :=
  ⟨EnsuresIf.of_ensures, EnsuresIf.of_true⟩

/-- An inert section, then the rest. -/
lemma inert {i : RtInstr fs.toFsSig} (hi : i.Inert) {f : i.Resp → RtProg fs.toFsSig α}
    (hf : ∀ r s', s'.table = s.table → s'.fs = s.fs → Leads fs n s' (f r) Q) :
    Leads fs n s (Runtime.sect i >>= f) Q :=
  iff_true.mpr (LeadsIf.inert hi fun r s' ht hfs => iff_true.mp (hf r s' ht hfs))

/-- `node(ino)?`: the node is not live, or the rest runs with a lease that is then given back. -/
lemma withNode {ino : ℕ} {body : NodeRef fs.Node → RtProg fs.toFsSig (Fallible β)}
    {Q : Fallible β → NodeTable fs.Node → fs.State → Prop}
    (hdead : s.table.slot ino = none → Q (fail .ENOENT) s.table s.fs)
    (hbody : ∀ sl s₁, s.table.slot ino = some sl →
      s.table.incr .leases ino = some (some sl, s₁.table) → s₁.fs = s.fs →
      Leads fs n s₁ (body ⟨ino, sl.record⟩) fun r t f =>
        Q r (t.dropRef ⟨ino, sl.record⟩) f) :
    Leads fs n s (Runtime.withNode ino body) Q :=
  iff_true.mpr (LeadsIf.withNode hdead fun sl s₁ hsl hinc hfs =>
    iff_true.mp (hbody sl s₁ hsl hinc hfs))

/-- `file(ino, fh)?` and `dir(ino, fh)?`: the handle is not there, or the rest runs with it. -/
lemma withHandle {k : HandleKind} {ino fh : ℕ}
    {body : fs.Payload k → RtProg fs.toFsSig (Fallible β)}
    {Q : Fallible β → NodeTable fs.Node → fs.State → Prop}
    (hfail : Q (fail .EBADF) s.table s.fs)
    (hbody : ∀ payload s₁, s₁.table = s.table → s₁.fs = s.fs →
      Leads fs n s₁ (body payload) Q) :
    Leads fs n s (Runtime.withHandle k ino fh body) Q :=
  iff_true.mpr (LeadsIf.withHandle hfail fun payload s₁ ht hf =>
    iff_true.mp (hbody payload s₁ ht hf))

end Leads

end Scopes

end TypedFuse
