import Mathlib.Tactic

/-!
# Lists that are read page by page

A list whose elements carry increasing positive cookies is read in pages.  A page starts behind a
cookie, skips what is not to be written, and ends before the first element that does not fit any
more (`fill`); the next page starts behind the last cookie of this one.  `Continues` is the
invariant of such a reader: what was read, followed by what is left behind the cookie, is the list.
-/

namespace Paging

variable {E : Type} (cookie size : E → ℕ) (writable : E → Bool)

/-- What of a list is written into a page with `room` bytes left. -/
def fill (room : ℕ) : List E → List E
  | [] => []
  | e :: es =>
    if writable e then
      if size e ≤ room then e :: fill (room - size e) es else []
    else fill room es

/-- The elements behind a cookie. -/
def behind (off : ℕ) (L : List E) : List E :=
  L.filter fun e => off < cookie e

/-- After reading `done`, the elements to write that are still to be read are behind the cookie
`off`. -/
def Continues (L : List E) (off : ℕ) (done : List E) : Prop :=
  done ++ (behind cookie off L).filter writable = L.filter writable

variable {cookie size writable} {L done page : List E} {off room : ℕ} {e : E}

/-- A page is the beginning of what is to be written. -/
lemma fill_isPrefix (room : ℕ) (L : List E) :
    fill size writable room L <+: L.filter writable := by
  induction L generalizing room with
  | nil => exact List.prefix_refl []
  | cons e es ih =>
    by_cases hw : writable e
    · rw [List.filter_cons_of_pos hw, fill, if_pos hw]
      split
      · exact List.cons_prefix_cons.mpr ⟨rfl, ih _⟩
      · exact List.nil_prefix
    · rw [List.filter_cons_of_neg hw, fill, if_neg hw]
      exact ih room

/-- A page is not longer than its room. -/
lemma sum_fill_le (room : ℕ) (L : List E) :
    ((fill size writable room L).map size).sum ≤ room := by
  induction L generalizing room with
  | nil => exact Nat.zero_le room
  | cons e es ih =>
    rw [fill]
    split
    · split
      · next hfit =>
        have hrest := ih (room - size e)
        rw [List.map_cons, List.sum_cons]
        omega
      · exact Nat.zero_le room
    · exact ih room

/-- A page with room for every single element is empty only if there is nothing to write. -/
lemma filter_eq_nil_of_fill (hroom : ∀ e ∈ L, writable e → size e ≤ room)
    (h : fill size writable room L = []) : L.filter writable = [] := by
  induction L with
  | nil => rfl
  | cons e es ih =>
    by_cases hw : writable e
    · rw [fill, if_pos hw, if_pos (hroom e List.mem_cons_self hw)] at h
      cases h
    · rw [fill, if_neg hw] at h
      rw [List.filter_cons_of_neg hw]
      exact ih (fun e' he' => hroom e' (List.mem_cons_of_mem e he')) h

lemma mem_of_mem_behind (h : e ∈ behind cookie off L) : e ∈ L :=
  (List.mem_filter.mp h).1

/-- With positive cookies, reading starts behind `0`. -/
lemma continues_start (hpos : ∀ e ∈ L, 0 < cookie e) : Continues cookie writable L 0 [] := by
  have hall : behind cookie 0 L = L := by
    refine List.filter_eq_self.mpr ?_
    intro e he
    exact decide_eq_true (hpos e he)
  unfold Continues
  rw [List.nil_append, hall]

/-- In a list with increasing cookies, what follows an element is what is behind its cookie. -/
lemma behind_of_sorted {before after : List E}
    (hsorted : (before ++ e :: after).Pairwise fun a b => cookie a < cookie b) :
    behind cookie (cookie e) (before ++ e :: after) = after := by
  rw [List.pairwise_append] at hsorted
  obtain ⟨_, hafter, hcross⟩ := hsorted
  have hbefore : before.filter (fun a => cookie e < cookie a) = [] := by
    rw [List.filter_eq_nil_iff]
    intro a ha
    have hlt := hcross a ha e List.mem_cons_self
    simp only [decide_eq_true_eq]
    omega
  have hself : (e :: after).filter (fun a => cookie e < cookie a) =
      after.filter fun a => cookie e < cookie a := List.filter_cons_of_neg (by simp)
  have hrest : after.filter (fun a => cookie e < cookie a) = after := by
    rw [List.filter_eq_self]
    intro a ha
    exact decide_eq_true ((List.pairwise_cons.mp hafter).1 a ha)
  unfold behind
  rw [List.filter_append, hbefore, hself, hrest, List.nil_append]

/-- What is written behind a cookie is what is behind it of all that is written. -/
lemma filter_behind : (behind cookie off L).filter writable =
    behind cookie off (L.filter writable) := by
  unfold behind
  rw [List.filter_filter, List.filter_filter]
  congr 1
  funext e
  exact Bool.and_comm _ _

/-- The next page starts behind the last cookie of this one. -/
lemma Continues.next (hsorted : L.Pairwise fun a b => cookie a < cookie b)
    (h : Continues cookie writable L off done) (hpage : page ++ [e] <+: (behind cookie off L).filter
      writable) : Continues cookie writable L (cookie e) (done ++ (page ++ [e])) := by
  obtain ⟨rest, hrest⟩ := hpage
  have hall : L.filter writable = (done ++ page) ++ e :: rest := by
    unfold Continues at h
    rw [← h, ← hrest]
    simp
  have hbehind : behind cookie (cookie e) (L.filter writable) = rest := by
    rw [hall]
    refine behind_of_sorted ?_
    rw [← hall]
    exact hsorted.sublist List.filter_sublist
  unfold Continues
  rw [filter_behind, hbehind, hall]
  simp

/-- The cookie that was reached is the last one that was read. -/
lemma Continues.length_le (h : Continues cookie writable L off done) :
    done.length ≤ (L.filter writable).length := by
  rw [← h, List.length_append]
  omega

/-- If nothing is left, everything was read. -/
lemma Continues.done_eq (h : Continues cookie writable L off done)
    (hnil : (behind cookie off L).filter writable = []) : done = L.filter writable := by
  unfold Continues at h
  rwa [hnil, List.append_nil] at h

end Paging
