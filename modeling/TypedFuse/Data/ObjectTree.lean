import Mathlib.Logic.Relation
import Mathlib.Order.RelIso.Basic
import Mathlib.Tactic

/-!
# Trees of objects

Directories hold objects under names.  An object is what a name leads to, whatever the name is: it
keeps its identity when a name moves, it can have several names, and a directory has one at most.
-/

/-- A tree of objects: what is held under which name. -/
@[ext] structure ObjectTree (Obj Name : Type) where
  root : Obj
  child : Obj → Name → Option Obj
  isDir : Obj → Prop

namespace ObjectTree

variable {Obj Name : Type} (T : ObjectTree Obj Name)

/-- The object at the end of a list of names. -/
def walk (names : List Name) : Option Obj :=
  names.foldlM T.child T.root

/-- The first object holds the second one. -/
def Below (a b : Obj) : Prop :=
  ∃ name, T.child a name = some b

/-- Directories form a tree: names are held by directories, a directory has one name at most, and no
object is below itself. -/
structure WF : Prop where
  root : T.isDir T.root
  dirs : ∀ {a name x}, T.child a name = some x → T.isDir a
  single : ∀ {a name a' name' x}, T.isDir x → T.child a name = some x →
    T.child a' name' = some x → a = a' ∧ name = name'
  acyclic : ∀ a, ¬ Relation.TransGen T.Below a a

/-- An object that is nowhere in the tree and holds nothing. -/
structure Fresh (x : Obj) : Prop where
  ne_root : x ≠ T.root
  unheld : ∀ a name, T.child a name ≠ some x
  empty : ∀ name, T.child x name = none

open Classical in
/-- Hold something else, or nothing, under a name. -/
noncomputable def set (a : Obj) (name : Name) (v : Option Obj) : ObjectTree Obj Name :=
  { T with child := fun b m => if b = a ∧ m = name then v else T.child b m }

open Classical in
/-- Hold a new object, which is a directory or not, under a name. -/
noncomputable def make (a : Obj) (name : Name) (x : Obj) (dir : Prop) : ObjectTree Obj Name :=
  { T.set a name (some x) with isDir := fun y => if y = x then dir else T.isDir y }

/-- Move an object from one name to another. -/
noncomputable def move (a : Obj) (name : Name) (a' : Obj) (name' : Name) (x : Obj) :
    ObjectTree Obj Name :=
  (T.set a name none).set a' name' (some x)

/-- What `rename` does: nothing, if both names are names of one object; otherwise it moves the
object, in place of one that holds nothing if it is a directory. -/
def Renames (a : Obj) (name : Name) (a' : Obj) (name' : Name) (x : Obj)
    (T' : ObjectTree Obj Name) : Prop :=
  (T.child a' name' = some x ∧ T' = T) ∨
    (T.child a' name' ≠ some x ∧
      (∀ y, T.child a' name' = some y → T.isDir y → ∀ m, T.child y m = none) ∧
      T' = T.move a name a' name' x)

variable {T} {a b x : Obj} {name m : Name} {v : Option Obj}

lemma walk_nil : T.walk [] = some T.root := rfl

lemma walk_snoc (names : List Name) (name : Name) :
    T.walk (names ++ [name]) = (T.walk names).bind fun a => T.child a name := by
  unfold walk
  rw [List.foldlM_append]
  congr 1
  funext a
  simp

/-- What a walk finds is the root or below it. -/
lemma below_of_walk {names : List Name} (h : T.walk names = some x) :
    Relation.ReflTransGen T.Below T.root x := by
  induction names using List.reverseRecOn generalizing x with
  | nil =>
    obtain rfl := Option.some.inj h
    exact .refl
  | append_singleton names name ih =>
    rw [walk_snoc] at h
    obtain ⟨a, ha, hx⟩ := Option.bind_eq_some_iff.mp h
    exact (ih ha).tail ⟨name, hx⟩

/-- The root is not held by anything that a walk finds. -/
lemma WF.child_ne_root (hT : T.WF) {names : List Name} (ha : T.walk names = some a) :
    T.child a name ≠ some T.root := by
  intro h
  exact hT.acyclic T.root (Relation.TransGen.tail' (below_of_walk ha) ⟨name, h⟩)

/-- An object that is no directory holds nothing. -/
lemma WF.child_eq_none (hT : T.WF) (h : ¬ T.isDir a) (name : Name) : T.child a name = none := by
  by_contra hne
  obtain ⟨x, hx⟩ := Option.ne_none_iff_exists'.mp hne
  exact h (hT.dirs hx)

lemma child_set_of_ne (h : ¬ (b = a ∧ m = name)) :
    (T.set a name v).child b m = T.child b m :=
  if_neg h

lemma child_set_self : (T.set a name v).child a name = v :=
  if_pos ⟨rfl, rfl⟩

lemma child_of_unset {y : Obj} (h : (T.set a name none).child b m = some y) :
    T.child b m = some y := by
  by_cases hbm : b = a ∧ m = name
  · obtain ⟨rfl, rfl⟩ := hbm
    rw [child_set_self] at h
    cases h
  · rwa [child_set_of_ne hbm] at h

lemma child_set_cases {y : Obj} (h : (T.set a name (some x)).child b m = some y) :
    (b = a ∧ m = name ∧ y = x) ∨ T.child b m = some y := by
  by_cases hbm : b = a ∧ m = name
  · obtain ⟨rfl, rfl⟩ := hbm
    rw [child_set_self] at h
    exact Or.inl ⟨rfl, rfl, (Option.some.inj h).symm⟩
  · rw [child_set_of_ne hbm] at h
    exact Or.inr h

lemma child_make_of_ne {dir : Prop} (h : ¬ (b = a ∧ m = name)) :
    (T.make a name x dir).child b m = T.child b m :=
  if_neg h

lemma child_make_self {dir : Prop} : (T.make a name x dir).child a name = some x :=
  if_pos ⟨rfl, rfl⟩

lemma isDir_make {y : Obj} {dir : Prop} :
    (T.make a name x dir).isDir y ↔ (y = x ∧ dir) ∨ (y ≠ x ∧ T.isDir y) := by
  by_cases hy : y = x
  · simp [make, hy]
  · simp [make, hy]

lemma child_move_self {a' : Obj} {name' : Name} :
    (T.move a name a' name' x).child a' name' = some x :=
  if_pos ⟨rfl, rfl⟩

lemma child_move_of_ne {a' : Obj} {name' : Name} (h : ¬ (b = a ∧ m = name))
    (h' : ¬ (b = a' ∧ m = name')) : (T.move a name a' name' x).child b m = T.child b m :=
  (if_neg h').trans (if_neg h)

/-! ## Well-formed changes -/

/-- An object that is no directory is above nothing. -/
lemma WF.eq_of_above (hT : T.WF) (hx : ¬ T.isDir x)
    (h : Relation.ReflTransGen T.Below x b) : b = x := by
  rcases Relation.ReflTransGen.cases_head h with heq | ⟨c, ⟨name, hc⟩, _⟩
  · exact heq.symm
  · exact absurd (hT.dirs hc) hx

/-- Holding one more object makes no cycle, if the object is not above its directory. -/
lemma WF.acyclic_hold (hT : T.WF) (habove : ¬ Relation.ReflTransGen T.Below x a)
    {T' : ObjectTree Obj Name} (h : ∀ b c, T'.Below b c → T.Below b c ∨ (b = a ∧ c = x)) (c : Obj) :
    ¬ Relation.TransGen T'.Below c c := by
  -- a chain of the new tree is one of the old tree, or uses the new link
  have hsplit : ∀ {b c}, Relation.TransGen T'.Below b c → Relation.TransGen T.Below b c ∨
      (Relation.ReflTransGen T.Below b a ∧ Relation.ReflTransGen T.Below x c) := by
    intro b c hbc
    induction hbc with
    | single hlink =>
      rcases h _ _ hlink with hold | ⟨rfl, rfl⟩
      · exact Or.inl (.single hold)
      · exact Or.inr ⟨.refl, .refl⟩
    | tail _ hlink ih =>
      rcases h _ _ hlink with hold | ⟨rfl, rfl⟩
      · rcases ih with hchain | ⟨hba, hxc⟩
        · exact Or.inl (hchain.tail hold)
        · exact Or.inr ⟨hba, hxc.tail hold⟩
      · rcases ih with hchain | ⟨hba, _⟩
        · exact Or.inr ⟨hchain.to_reflTransGen, .refl⟩
        · exact Or.inr ⟨hba, .refl⟩
  intro hcycle
  rcases hsplit hcycle with hchain | ⟨hca, hxc⟩
  · exact hT.acyclic c hchain
  · exact habove (hxc.trans hca)

/-- What is above a directory is on every walk to it, if the root is held by nothing. -/
lemma WF.above_of_walk (hT : T.WF) (hroot : ∀ b m, T.child b m ≠ some T.root) {names : List Name}
    (h : T.walk names = some a) (ha : T.isDir a) (habove : Relation.ReflTransGen T.Below x a) :
    ∃ names', names' <+: names ∧ T.walk names' = some x := by
  induction names using List.reverseRecOn generalizing a with
  | nil =>
    obtain rfl := Option.some.inj h
    rcases Relation.ReflTransGen.cases_tail habove with heq | ⟨c, _, m, hm⟩
    · exact ⟨[], List.prefix_rfl, by rw [← heq, walk_nil]⟩
    · exact absurd hm (hroot c m)
  | append_singleton names name ih =>
    have hlast := h
    rw [walk_snoc] at hlast
    obtain ⟨b, hb, hba⟩ := Option.bind_eq_some_iff.mp hlast
    rcases Relation.ReflTransGen.cases_tail habove with heq | ⟨c, hxc, m, hm⟩
    · exact ⟨names ++ [name], List.prefix_rfl, by rw [h, heq]⟩
    · obtain ⟨rfl, _⟩ := hT.single ha hm hba
      obtain ⟨names', hfront, hwalk⟩ := ih hb (hT.dirs hba) hxc
      exact ⟨names', hfront.trans (List.prefix_append _ _), hwalk⟩

/-- Taking a name away. -/
lemma WF.remove (hT : T.WF) (a : Obj) (name : Name) : (T.set a name none).WF := by
  refine ⟨hT.root, fun h => hT.dirs (child_of_unset h),
    fun hx h h' => hT.single hx (child_of_unset h) (child_of_unset h'), ?_⟩
  intro c hc
  exact hT.acyclic c (hc.lift id fun b c ⟨m, hm⟩ => ⟨m, child_of_unset hm⟩)

/-- Holding an object under a name: a directory that is held nowhere and is not above the place, or
something that is no directory. -/
lemma WF.hold (hT : T.WF) (ha : T.isDir a) (hx : T.isDir x → ∀ b m, T.child b m ≠ some x)
    (habove : ¬ Relation.ReflTransGen T.Below x a) (name : Name) :
    (T.set a name (some x)).WF := by
  refine ⟨hT.root, fun h => ?_, fun hdir h h' => ?_, ?_⟩
  · rcases child_set_cases h with ⟨rfl, _, _⟩ | h
    · exact ha
    · exact hT.dirs h
  · rcases child_set_cases h with ⟨rfl, rfl, rfl⟩ | hold
    · rcases child_set_cases h' with ⟨rfl, rfl, _⟩ | hold'
      · exact ⟨rfl, rfl⟩
      · exact absurd hold' (hx hdir _ _)
    · rcases child_set_cases h' with ⟨rfl, rfl, rfl⟩ | hold'
      · exact absurd hold (hx hdir _ _)
      · exact hT.single hdir hold hold'
  · refine hT.acyclic_hold habove ?_
    rintro b c ⟨m, hm⟩
    rcases child_set_cases hm with ⟨rfl, _, rfl⟩ | hm
    · exact Or.inr ⟨rfl, rfl⟩
    · exact Or.inl ⟨m, hm⟩

/-- Making an object. -/
lemma WF.make (hT : T.WF) (ha : T.isDir a) (hfresh : T.Fresh x) (hx : ¬ T.isDir x) (name : Name)
    (dir : Prop) : (T.make a name x dir).WF := by
  have habove : ¬ Relation.ReflTransGen T.Below x a := by
    intro h
    obtain rfl := hT.eq_of_above hx h
    exact hx ha
  have hset := hT.hold ha (fun hdir => absurd hdir hx) habove name
  have hdirs : ∀ {y}, y ≠ x → ((T.make a name x dir).isDir y ↔ T.isDir y) := by
    intro y hy
    simp [isDir_make, hy]
  refine ⟨?_, ?_, ?_, hset.acyclic⟩
  · exact (hdirs hfresh.ne_root.symm).mpr hT.root
  · intro b m y hy
    have hb : T.isDir b := hset.dirs hy
    refine (hdirs ?_).mpr hb
    rintro rfl
    exact hx hb
  · intro b m b' m' y hdir h h'
    by_cases hyx : y = x
    · subst hyx
      have hplace : ∀ {b m}, (T.make a name y dir).child b m = some y → b = a ∧ m = name := by
        intro b m hy
        by_contra hbm
        rw [child_make_of_ne hbm] at hy
        exact hfresh.unheld b m hy
      obtain ⟨rfl, rfl⟩ := hplace h
      obtain ⟨rfl, rfl⟩ := hplace h'
      exact ⟨rfl, rfl⟩
    · exact hset.single ((hdirs hyx).mp hdir) h h'

/-- Moving an object that is not above the new place. -/
lemma WF.move (hT : T.WF) {a' : Obj} (ha : T.child a name = some x) (ha' : T.isDir a')
    (habove : ¬ Relation.ReflTransGen T.Below x a') (name' : Name) :
    (T.move a name a' name' x).WF := by
  refine (hT.remove a name).hold ha' ?_ ?_ name'
  · intro hdir b m hb
    obtain ⟨rfl, rfl⟩ := hT.single hdir (child_of_unset hb) ha
    rw [child_set_self] at hb
    cases hb
  · exact fun h => habove (h.lift id fun b c ⟨m, hm⟩ => ⟨m, child_of_unset hm⟩)

end ObjectTree
