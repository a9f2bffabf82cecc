import Mathlib.Algebra.BigOperators.Group.List.Basic
import Mathlib.Tactic

/-!
# Splitting at a separator, with an escape

A list is cut at every separator; an escape element makes the next one ordinary and disappears,
except at the end, where it stands for itself.  Pieces that are joined with the separator are
recovered if and only if no piece contains the separator and the only escape is at the very end
(`split_intercalate_iff`): an escape that disappears shortens the result.
-/

namespace Splitting

variable {α : Type} [DecidableEq α] {sep esc : α}

/-- Cut a list at the separators that are not escaped. -/
def split (sep esc : α) : List α → List (List α)
  | [] => [[]]
  | [c] => if c = sep then [[], []] else [[c]]
  | c :: d :: rest =>
    if c = sep then [] :: split sep esc (d :: rest)
    else if c = esc then (split sep esc rest).modifyHead (d :: ·)
    else (split sep esc (d :: rest)).modifyHead (c :: ·)

/-- How many escapes disappear. -/
def escapes (sep esc : α) : List α → ℕ
  | [] => 0
  | [_] => 0
  | c :: d :: rest =>
    if c = sep then escapes sep esc (d :: rest)
    else if c = esc then escapes sep esc rest + 1
    else escapes sep esc (d :: rest)

/-- The length of a list of pieces, each with a separator. -/
def weight (pieces : List (List α)) : ℕ :=
  (pieces.map fun t => t.length + 1).sum

lemma split_ne_nil (sep esc : α) (s : List α) : split sep esc s ≠ [] := by
  fun_induction split sep esc s with
  | case1 => exact List.cons_ne_nil _ _
  | case2 => exact List.cons_ne_nil _ _
  | case3 => exact List.cons_ne_nil _ _
  | case4 => exact List.cons_ne_nil _ _
  | case5 rest d hsep ih =>
    simpa using ih
  | case6 c rest d hc hesc ih =>
    simpa using ih

omit [DecidableEq α] in
lemma weight_modifyHead (c : α) {pieces : List (List α)} (h : pieces ≠ []) :
    weight (pieces.modifyHead (c :: ·)) = weight pieces + 1 := by
  cases pieces with
  | nil => exact absurd rfl h
  | cons t ts =>
    unfold weight
    simp only [List.modifyHead_cons, List.map_cons, List.sum_cons, List.length_cons]
    omega

/-- Every escape that disappears makes the pieces shorter. -/
lemma weight_split (sep esc : α) (s : List α) :
    weight (split sep esc s) + escapes sep esc s = s.length + 1 := by
  fun_induction split sep esc s with
  | case1 => rfl
  | case2 => rfl
  | case3 c hc => rfl
  | case4 d rest ih =>
    have hnil : weight ([] :: split sep esc (d :: rest)) =
        weight (split sep esc (d :: rest)) + 1 := by
      unfold weight
      simp only [List.map_cons, List.sum_cons, List.length_nil]
      omega
    rw [escapes, if_pos rfl, hnil, List.length_cons]
    omega
  | case5 d rest hsep ih =>
    rw [escapes, if_neg hsep, if_pos rfl, weight_modifyHead _ (split_ne_nil _ _ _),
      List.length_cons, List.length_cons]
    omega
  | case6 c d rest hc hesc ih =>
    rw [escapes, if_neg hc, if_neg hesc, weight_modifyHead _ (split_ne_nil _ _ _),
      List.length_cons]
    omega

omit [DecidableEq α] in
/-- The weight of pieces is the length of the joined list. -/
lemma weight_eq_length (sep : α) {pieces : List (List α)} (h : pieces ≠ []) :
    weight pieces = ([sep].intercalate pieces).length + 1 := by
  induction pieces with
  | nil => exact absurd rfl h
  | cons t ts ih =>
    cases ts with
    | nil =>
      simp [weight]
    | cons u us =>
      have hrest := ih (List.cons_ne_nil _ _)
      unfold weight at hrest ⊢
      rw [List.map_cons, List.sum_cons, hrest, List.intercalate_cons_cons, List.length_append,
        List.length_append, List.length_singleton]
      omega

/-- No escape disappears if and only if there is none before the end. -/
lemma escapes_eq_zero_iff (hne : sep ≠ esc) (s : List α) :
    escapes sep esc s = 0 ↔ esc ∉ s.dropLast := by
  fun_induction escapes sep esc s with
  | case1 => simp
  | case2 => simp
  | case3 d rest ih =>
    rw [ih, List.dropLast_cons_cons, List.mem_cons, not_or]
    exact (and_iff_right hne.symm).symm
  | case4 d rest hsep ih =>
    constructor
    · intro h
      omega
    · intro h
      exact absurd List.mem_cons_self h
  | case5 c d rest hc hesc ih =>
    rw [ih, List.dropLast_cons_cons, List.mem_cons, not_or]
    exact (and_iff_right (Ne.symm hesc)).symm

/-- Without escapes the list is cut at every separator. -/
lemma split_eq_splitOn {s : List α} (h : esc ∉ s.dropLast) :
    split sep esc s = s.splitOn sep := by
  fun_induction split sep esc s with
  | case1 => rfl
  | case2 =>
    rw [List.splitOn_cons_eq_if_modifyHead]
    simp
  | case3 c hc =>
    rw [List.splitOn_cons_eq_if_modifyHead]
    simp [hc]
  | case4 d rest ih =>
    rw [List.dropLast_cons_cons, List.mem_cons, not_or] at h
    rw [List.splitOn_cons_eq_if_modifyHead, ih h.2]
    simp
  | case5 d rest hsep ih => exact absurd List.mem_cons_self h
  | case6 c d rest hc hesc ih =>
    rw [List.dropLast_cons_cons, List.mem_cons, not_or] at h
    rw [List.splitOn_cons_eq_if_modifyHead, ih h.2]
    simp [hc]

/-- A piece between separators has none. -/
lemma not_mem_of_mem_splitOn {s t : List α} (h : t ∈ s.splitOn sep) : sep ∉ t := by
  induction s generalizing t with
  | nil =>
    rw [List.splitOn_nil, List.mem_singleton] at h
    rw [h]
    exact List.not_mem_nil
  | cons c s ih =>
    rw [List.splitOn_cons_eq_if_modifyHead] at h
    split at h
    · rcases List.mem_cons.mp h with rfl | ht
      · exact List.not_mem_nil
      · exact ih ht
    · rename_i hc
      obtain ⟨u, us, hu⟩ := List.exists_cons_of_ne_nil (List.splitOn_ne_nil sep s)
      rw [hu, List.modifyHead_cons] at h
      rw [hu] at ih
      rcases List.mem_cons.mp h with rfl | ht
      · rw [List.mem_cons, not_or]
        constructor
        · intro heq
          exact hc (by simp [heq])
        · exact ih List.mem_cons_self
      · exact ih (List.mem_cons_of_mem _ ht)

omit [DecidableEq α] in
/-- What is between pieces is the separator. -/
lemma mem_intercalate_singleton {c : α} (hne : c ≠ sep) {pieces : List (List α)}
    (h : c ∈ [sep].intercalate pieces) : ∃ t ∈ pieces, c ∈ t := by
  induction pieces with
  | nil => simp at h
  | cons t ts ih =>
    cases ts with
    | nil => exact ⟨t, List.mem_cons_self, by simpa using h⟩
    | cons u us =>
      rw [List.intercalate_cons_cons, List.mem_append, List.mem_append, List.mem_singleton] at h
      rcases h with (ht | hsep) | hrest
      · exact ⟨t, List.mem_cons_self, ht⟩
      · exact absurd hsep hne
      · obtain ⟨v, hv, hc⟩ := ih hrest
        exact ⟨v, List.mem_cons_of_mem _ hv, hc⟩

/-- Joined pieces are recovered exactly if they have no separator and nothing is escaped. -/
theorem split_intercalate_iff (hne : sep ≠ esc) {pieces : List (List α)} (h : pieces ≠ []) :
    split sep esc ([sep].intercalate pieces) = pieces ↔
      (∀ t ∈ pieces, sep ∉ t) ∧ esc ∉ ([sep].intercalate pieces).dropLast := by
  constructor
  · intro heq
    have hweight := weight_split sep esc ([sep].intercalate pieces)
    rw [heq, weight_eq_length sep h] at hweight
    have hesc := (escapes_eq_zero_iff hne ([sep].intercalate pieces)).mp (by omega)
    refine ⟨?_, hesc⟩
    rw [split_eq_splitOn hesc] at heq
    intro t ht
    rw [← heq] at ht
    exact not_mem_of_mem_splitOn ht
  · rintro ⟨hsep, hesc⟩
    rw [split_eq_splitOn hesc]
    exact List.splitOn_intercalate sep hsep h

omit [DecidableEq α] in
/-- An escape before the end is in a piece before the last, or in the last before its end. -/
lemma mem_dropLast_intercalate_iff (hne : sep ≠ esc) (pieces : List (List α)) :
    esc ∈ ([sep].intercalate pieces).dropLast ↔
      (∃ t ∈ pieces.dropLast, esc ∈ t) ∨ ∃ t ∈ pieces.getLast?, esc ∈ t.dropLast := by
  induction pieces with
  | nil => simp
  | cons t ts ih =>
    cases ts with
    | nil => simp
    | cons u us =>
      have hcut : ∀ v : List α, esc ∈ (sep :: v).dropLast ↔ esc ∈ v.dropLast := by
        intro v
        cases v with
        | nil => simp
        | cons c v =>
          rw [List.dropLast_cons_cons, List.mem_cons]
          exact or_iff_right hne.symm
      rw [List.intercalate_cons_cons, List.append_assoc, List.dropLast_append_of_ne_nil (by simp),
        List.mem_append, List.singleton_append, hcut, ih, List.dropLast_cons_cons,
        List.getLast?_cons_cons, ← or_assoc]
      simp

end Splitting
