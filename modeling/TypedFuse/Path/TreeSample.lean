import TypedFuse.Path.PathSample
import TypedFuse.Path.Scene

/-!
# A tree filesystem in memory

Objects are numbered as they are made, and a map says which object a directory holds under a name.
For concrete runs of the adapter over a tree filesystem.
-/

namespace TypedFuse

open Conc Conc.Service TypedFuse.Runtime

namespace TreeSample

/-- The objects of the filesystem: the root is 1. -/
structure Store where
  next : ℕ
  dirs : Finset ℕ
  held : BTreeMap (ℕ × Name) ℕ

namespace Store

/-- Only the root. -/
def empty : Store :=
  ⟨2, {1}, ∅⟩

/-- The tree of a store. -/
def tree (s : Store) : ObjectTree ℕ Name where
  root := 1
  child := fun a name => s.held.lookup (a, name)
  isDir := fun a => a ∈ s.dirs

/-- The object that a directory holds. -/
def lookup (s : Store) (p : Path) (name : Name) : Fallible (Option NodeAttr) :=
  match s.tree.resolve p with
  | none => fail .ENOENT
  | some a => .ok ((s.held.lookup (a, name)).map fun _ => {})

/-- A new object under a free name. -/
def make (s : Store) (p : Path) (name : Name) (dir : Bool) : Fallible NodeAttr × Store :=
  match s.tree.resolve p with
  | none => (fail .ENOENT, s)
  | some a =>
    if a ∈ s.dirs ∧ s.held.lookup (a, name) = none then
      (.ok {}, ⟨s.next + 1, if dir then insert s.next s.dirs else s.dirs,
        s.held.insert (a, name) s.next⟩)
    else (fail .EPERM, s)

/-- A file with a name, a new one if the name is free. -/
def create (s : Store) (p : Path) (name : Name) :
    Fallible (NodeAttr × Opened Unit) × Store :=
  match (s.tree.resolve p).bind fun a => s.held.lookup (a, name) with
  | some x => (if x ∈ s.dirs then fail .EPERM else .ok ({}, ⟨(), {}⟩), s)
  | none => ((s.make p name false).1.map fun attr => (attr, ⟨(), {}⟩), (s.make p name false).2)

/-- An object holds nothing. -/
def holdsNothing (s : Store) (x : ℕ) : Bool :=
  s.held.countWhere (fun k _ => decide (k.1 = x)) = 0

/-- Remove a name of a directory, or of something else. -/
def remove (s : Store) (p : Path) (name : Name) (dir : Bool) : Fallible Unit × Store :=
  match s.tree.resolve p with
  | none => (fail .ENOENT, s)
  | some a =>
    match s.held.lookup (a, name) with
    | none => (fail .ENOENT, s)
    | some x =>
      if decide (x ∈ s.dirs) = dir ∧ s.holdsNothing x then
        (.ok (), { s with held := s.held.erase (a, name) })
      else (fail .EPERM, s)

/-- Move a name, in place of one of the same kind.  The last test keeps a directory from getting
below itself. -/
def rename (s : Store) (p : Path) (name : Name) (p' : Path) (name' : Name) :
    Fallible Unit × Store :=
  match s.tree.resolve p, s.tree.resolve p' with
  | some a, some a' =>
    match s.held.lookup (a, name) with
    | none => (fail .ENOENT, s)
    | some x =>
      if s.held.lookup (a', name') = some x then (.ok (), s)
      else if a' ∈ s.dirs ∧
          (∀ y ∈ s.held.lookup (a', name'), s.holdsNothing y ∧ (x ∈ s.dirs ↔ y ∈ s.dirs)) ∧
          ∀ names ∈ p'.components.inits, s.tree.walk names ≠ some x then
        (.ok (), { s with held := (s.held.erase (a, name)).insert (a', name') x })
      else (fail .EPERM, s)
  | _, _ => (fail .ENOENT, s)

/-- One more name for an object that is no directory. -/
def link (s : Store) (p p' : Path) (name' : Name) : Fallible NodeAttr × Store :=
  match s.tree.resolve p, s.tree.resolve p' with
  | some x, some a' =>
    if x ∉ s.dirs ∧ a' ∈ s.dirs ∧ s.held.lookup (a', name') = none then
      (.ok {}, { s with held := s.held.insert (a', name') x })
    else (fail .EPERM, s)
  | _, _ => (fail .ENOENT, s)

/-- The names that a directory has, of a list of names. -/
def list {D : Type} (s : Store) (p : Path) (data : D) (names : List Name) : Listing D :=
  match s.tree.resolve p with
  | none => .finish (fail .ENOENT)
  | some a => PathSample.listing data false
    (Name.dot :: Name.dotDot :: names.filter fun name => (s.held.lookup (a, name)).isSome)

/-- The answers to calls. -/
def call (names : List Name) (s : Store) : (c : PathCall fun _ => Unit) → c.Resp × Store
  | .lookup p name _ => (s.lookup p name, s)
  | .getattr _ _ _ => (Except.ok ({} : NodeAttr), s)
  | .setattr _ _ _ _ => (Except.ok ({} : NodeAttr), s)
  | .nodeOp _ _ _ => (Except.ok Value.unit, s)
  | .fileOp _ _ _ _ => (Except.ok Value.unit, s)
  | .fsyncdir _ _ _ _ => (Except.ok (), s)
  | .statfs _ _ => (Except.ok ({} : StatFs), s)
  | .openNode _ _ _ _ => (Except.ok (Opened.mk () {}), s)
  | .release _ _ _ _ => (Except.ok (), s)
  | .mknod p name _ _ _ _ => s.make p name false
  | .mkdir p name _ _ _ => s.make p name true
  | .symlink p name _ _ => s.make p name false
  | .create p name _ _ _ _ => s.create p name
  | .unlink p name _ => s.remove p name false
  | .rmdir p name _ => s.remove p name true
  | .rename p name p' name' _ => s.rename p name p' name'
  | .link p p' name' _ => s.link p p' name'
  | .readdir p _ _ _ => (s.list p FileKind.regularFile names, s)
  | .readdirplus p _ _ _ => (s.list p ({} : NodeAttr) names, s)

end Store

/-- The filesystem.  In which order a directory is listed is the choice of the run. -/
def inner : PathFilesystem where
  Payload := fun _ => Unit
  State := Store
  Choice := List Name
  init := .empty
  call := fun c names s => some (s.call names c)

/-! ## It is a tree filesystem -/

/-- A store is in order: its tree is well-formed, its names are ordinary, its objects were made, and
nothing holds the root. -/
structure Store.Valid (s : Store) : Prop where
  wf : s.tree.WF
  ordinary : ∀ {a name x}, s.tree.child a name = some x → name.Ordinary
  made : ∀ {a name x}, s.tree.child a name = some x → x ≠ 1 ∧ x < s.next
  dirsMade : ∀ {x}, s.tree.isDir x → x < s.next

namespace Store

variable {s : Store} {p p' : Path} {name name' : Name}

lemma valid_empty : empty.Valid where
  wf := by
    refine ⟨Finset.mem_singleton_self 1, (nomatch ·), fun _ => (nomatch ·), ?_⟩
    intro a ha
    obtain ⟨b, ⟨m, hm⟩, _⟩ := Relation.TransGen.head'_iff.mp ha
    cases hm
  ordinary := fun h => nomatch h
  made := fun h => nomatch h
  dirsMade := by
    intro x hx
    obtain rfl := Finset.mem_singleton.mp hx
    exact Nat.lt_succ_self 1

/-- Holding an object under a name. -/
lemma child_insert {a x : ℕ} :
    (fun b m => (s.held.insert (a, name) x).lookup (b, m)) =
      (s.tree.set a name (some x)).child := by
  funext b m
  rw [BTreeMap.lookup_insert_ite]
  unfold tree ObjectTree.set
  congr 1
  exact propext Prod.mk_inj

lemma tree_insert {a x : ℕ} :
    ({ s with held := s.held.insert (a, name) x } : Store).tree =
      s.tree.set a name (some x) :=
  ObjectTree.ext rfl child_insert rfl

/-- Taking a name away. -/
lemma tree_erase {a : ℕ} :
    ({ s with held := s.held.erase (a, name) } : Store).tree = s.tree.set a name none := by
  unfold tree ObjectTree.set
  congr 1
  funext b m
  rw [BTreeMap.lookup_erase_ite]
  congr 1
  exact propext Prod.mk_inj

/-- The next object is new. -/
lemma Valid.fresh (h : s.Valid) : s.tree.Fresh s.next ∧ ¬ s.tree.isDir s.next := by
  have hdir : ¬ s.tree.isDir s.next := fun hdir => Nat.lt_irrefl _ (h.dirsMade hdir)
  refine ⟨⟨?_, fun a m hm => Nat.lt_irrefl _ (h.made hm).2, h.wf.child_eq_none hdir⟩, hdir⟩
  have hroot := h.dirsMade h.wf.root
  exact Nat.ne_of_gt hroot

/-- What follows for a store whose tree has no names but those of another one and one more. -/
lemma Valid.change (h : s.Valid) {s' : Store} {x : ℕ} (hwf : s'.tree.WF) (hnext : s.next ≤ s'.next)
    (hchild : ∀ {b m y}, s'.tree.child b m = some y →
      (m = name ∧ y = x) ∨ s.tree.child b m = some y)
    (hname : name.Ordinary) (hx : x ≠ 1 ∧ x < s'.next)
    (hdirs : ∀ {y}, s'.tree.isDir y → y = x ∨ s.tree.isDir y) : s'.Valid := by
  refine ⟨hwf, fun hy => ?_, fun hy => ?_, fun hy => ?_⟩
  · rcases hchild hy with ⟨rfl, _⟩ | hold
    · exact hname
    · exact h.ordinary hold
  · rcases hchild hy with ⟨_, rfl⟩ | hold
    · exact hx
    · exact ⟨(h.made hold).1, (h.made hold).2.trans_le hnext⟩
  · rcases hdirs hy with rfl | hold
    · exact hx.2
    · exact (h.dirsMade hold).trans_le hnext

lemma tree_make (s : Store) (a : ℕ) (name : Name) {dir : Bool} {D : Prop} (hD : D ↔ dir = true)
    (hnew : ¬ s.tree.isDir s.next) :
    (⟨s.next + 1, if dir then insert s.next s.dirs else s.dirs,
      s.held.insert (a, name) s.next⟩ : Store).tree = s.tree.make a name s.next D := by
  refine ObjectTree.ext rfl child_insert ?_
  funext y
  refine propext (Iff.trans ?_ ObjectTree.isDir_make.symm)
  cases dir with
  | true =>
    have hdir : D := hD.mpr rfl
    refine Finset.mem_insert.trans ?_
    by_cases hy : y = s.next
    · simp [hy, hdir]
    · simp [hy, tree]
  | false =>
    have hfile : ¬ D := fun hdir => nomatch hD.mp hdir
    constructor
    · intro hy
      exact Or.inr ⟨fun heq => hnew (heq ▸ hy), hy⟩
    · rintro (⟨_, hdir⟩ | ⟨_, hy⟩)
      · exact absurd hdir hfile
      · exact hy

lemma make_spec (h : s.Valid) (hname : name.Ordinary) (dir : Bool) {D : Prop}
    (hD : D ↔ dir = true) :
    (s.make p name dir).2.Valid ∧
      s.tree.OnOk (s.make p name dir).1 (s.tree.Makes p name D) (s.make p name dir).2.tree := by
  unfold make
  split
  · exact ⟨h, rfl⟩
  · next a ha =>
    split
    · next hcan =>
      obtain ⟨hdir, hfree⟩ := hcan
      obtain ⟨hfresh, hnew⟩ := h.fresh
      have htree := s.tree_make a name hD hnew
      refine ⟨h.change (x := s.next) ?_ (Nat.le_succ _) (fun hy => ?_) hname ?_ fun hy => ?_,
        a, s.next, ha, hfree, hfresh, htree⟩
      · rw [htree]
        exact h.wf.make hdir hfresh hnew name D
      · rw [htree] at hy
        exact (ObjectTree.child_set_cases hy).imp And.right id
      · exact ⟨hfresh.ne_root, Nat.lt_succ_self _⟩
      · rw [htree, ObjectTree.isDir_make] at hy
        exact hy.imp And.left And.right
    · exact ⟨h, rfl⟩

lemma create_spec (h : s.Valid) (hname : name.Ordinary) :
    (s.create p name).2.Valid ∧ s.tree.OnOk (s.create p name).1
      (fun T' => s.tree.Makes p name False T' ∨
        ∃ a x, s.tree.resolve p = some a ∧ s.tree.child a name = some x ∧ T' = s.tree)
      (s.create p name).2.tree := by
  unfold create
  split
  · next x hx =>
    obtain ⟨a, ha, hx⟩ := Option.bind_eq_some_iff.mp hx
    refine ⟨h, ?_⟩
    split
    · rfl
    · exact Or.inr ⟨a, x, ha, hx, rfl⟩
  · obtain ⟨hvalid, hmakes⟩ := make_spec (p := p) h hname false (D := False) (by simp)
    refine ⟨hvalid, ?_⟩
    cases hr : (s.make p name false).1 with
    | error e =>
      rw [hr] at hmakes
      exact hmakes
    | ok attr =>
      rw [hr] at hmakes
      exact Or.inl hmakes

lemma holdsNothing_iff {x : ℕ} : s.holdsNothing x = true ↔ ∀ m, s.tree.child x m = none := by
  refine decide_eq_true_iff.trans (BTreeMap.countWhere_eq_zero_iff.trans ?_)
  constructor
  · intro hempty m
    by_contra hne
    obtain ⟨y, hy⟩ := Option.ne_none_iff_exists'.mp hne
    simpa using hempty (x, m) y hy
  · rintro hempty ⟨b, m⟩ y hy
    refine decide_eq_false ?_
    rintro rfl
    rw [show s.held.lookup (b, m) = none from hempty m] at hy
    cases hy

lemma Valid.erase (h : s.Valid) (a : ℕ) (name : Name) :
    ({ s with held := s.held.erase (a, name) } : Store).Valid := by
  refine ⟨?_, fun hy => ?_, fun hy => ?_, h.dirsMade⟩
  · rw [tree_erase]
    exact h.wf.remove a name
  · rw [tree_erase] at hy
    exact h.ordinary (ObjectTree.child_of_unset hy)
  · rw [tree_erase] at hy
    exact h.made (ObjectTree.child_of_unset hy)

lemma remove_spec (h : s.Valid) (dir : Bool) :
    (s.remove p name dir).2.Valid ∧ s.tree.OnOk (s.remove p name dir).1
      (fun T' => ∃ a x, s.tree.resolve p = some a ∧ s.tree.child a name = some x ∧
        (s.tree.isDir x ↔ dir = true) ∧ (∀ m, s.tree.child x m = none) ∧
        T' = s.tree.set a name none) (s.remove p name dir).2.tree := by
  unfold remove
  split
  · exact ⟨h, rfl⟩
  · next a ha =>
    split
    · exact ⟨h, rfl⟩
    · next x hx =>
      split
      · next hcan =>
        obtain ⟨hdir, hempty⟩ := hcan
        refine ⟨h.erase a name, a, x, ha, hx, ?_, holdsNothing_iff.mp hempty, tree_erase⟩
        rw [← hdir]
        exact (decide_eq_true_iff (p := x ∈ s.dirs)).symm
      · exact ⟨h, rfl⟩

lemma unlink_spec (h : s.Valid) :
    (s.remove p name false).2.Valid ∧ s.tree.OnOk (s.remove p name false).1
      (fun T' => ∃ a x, s.tree.resolve p = some a ∧ s.tree.child a name = some x ∧
        ¬ s.tree.isDir x ∧ T' = s.tree.set a name none) (s.remove p name false).2.tree := by
  refine (remove_spec h false).imp id fun hremoved => hremoved.mono ?_
  rintro T' ⟨a, x, ha, hx, hdir, _, htree⟩
  exact ⟨a, x, ha, hx, fun hx => absurd (hdir.mp hx) Bool.false_ne_true, htree⟩

lemma rmdir_spec (h : s.Valid) :
    (s.remove p name true).2.Valid ∧ s.tree.OnOk (s.remove p name true).1
      (fun T' => ∃ a x, s.tree.resolve p = some a ∧ s.tree.child a name = some x ∧
        s.tree.isDir x ∧ (∀ m, s.tree.child x m = none) ∧
        T' = s.tree.set a name none) (s.remove p name true).2.tree := by
  refine (remove_spec h true).imp id fun hremoved => hremoved.mono ?_
  rintro T' ⟨a, x, ha, hx, hdir, hempty, htree⟩
  exact ⟨a, x, ha, hx, hdir.mpr rfl, hempty, htree⟩

lemma rename_spec (h : s.Valid) (hname : name'.Ordinary) :
    (s.rename p name p' name').2.Valid ∧ s.tree.OnOk (s.rename p name p' name').1
      (fun T' => ∃ a a' x, s.tree.resolve p = some a ∧ s.tree.resolve p' = some a' ∧
        s.tree.child a name = some x ∧ s.tree.Renames a name a' name' x T')
      (s.rename p name p' name').2.tree := by
  unfold rename
  split
  · next a a' ha ha' =>
    split
    · exact ⟨h, rfl⟩
    · next x hx =>
      split
      · next hsame => exact ⟨h, a, a', x, ha, ha', hx, Or.inl ⟨hsame, rfl⟩⟩
      · next hother =>
        split
        · next hcan =>
          obtain ⟨hdir, hempty, hway⟩ := hcan
          have habove : ¬ Relation.ReflTransGen s.tree.Below x a' := by
            intro habove
            obtain ⟨names, hfront, hwalk⟩ :=
              h.wf.above_of_walk (fun _ _ hm => (h.made hm).1 rfl) ha' hdir habove
            exact hway names ((List.mem_inits _ _).mpr hfront) hwalk
          have hwf := h.wf.move hx hdir habove name'
          have htree : ({ s with held := (s.held.erase (a, name)).insert (a', name') x } :
              Store).tree = s.tree.move a name a' name' x := by
            refine (tree_insert (s := { s with held := s.held.erase (a, name) })).trans ?_
            rw [tree_erase]
            rfl
          refine ⟨h.change (x := x) ?_ le_rfl (fun hy => ?_) hname (h.made hx) Or.inr, a, a', x,
            ha, ha', hx, Or.inr ⟨hother, ?_, htree⟩⟩
          · rw [htree]
            exact hwf
          · rw [htree] at hy
            exact (ObjectTree.child_set_cases hy).imp And.right ObjectTree.child_of_unset
          · exact fun y hy _ => holdsNothing_iff.mp (hempty y hy).1
        · exact ⟨h, rfl⟩
  · exact ⟨h, rfl⟩

lemma link_spec (h : s.Valid) (hname : name'.Ordinary) :
    (s.link p p' name').2.Valid ∧ s.tree.OnOk (s.link p p' name').1
      (fun T' => ∃ x a', s.tree.resolve p = some x ∧ s.tree.resolve p' = some a' ∧
        ¬ s.tree.isDir x ∧ s.tree.child a' name' = none ∧
        T' = s.tree.set a' name' (some x)) (s.link p p' name').2.tree := by
  unfold link
  split
  · next x a' hx ha' =>
    split
    · next hcan =>
      obtain ⟨hfile, hdir, hfree⟩ := hcan
      have hwf : (s.tree.set a' name' (some x)).WF := by
        refine h.wf.hold hdir (fun hx => absurd hx hfile) (fun habove => ?_) name'
        obtain rfl := h.wf.eq_of_above hfile habove
        exact hfile hdir
      refine ⟨h.change (x := x) ?_ le_rfl (fun hy => ?_) hname ?_ Or.inr, x, a', hx, ha', hfile,
        hfree, tree_insert⟩
      · rw [tree_insert]
        exact hwf
      · rw [tree_insert] at hy
        exact (ObjectTree.child_set_cases hy).imp And.right id
      · rcases Relation.ReflTransGen.cases_tail (ObjectTree.below_of_walk hx) with
          heq | ⟨b, _, m, hm⟩
        · exact absurd (heq ▸ h.wf.root) hfile
        · exact h.made hm
    · exact ⟨h, rfl⟩
  · exact ⟨h, rfl⟩

lemma list_emits {D : Type} (data : D) (names : List Name) :
    (s.list p data names).Emits fun name => name = Name.dot ∨ name = Name.dotDot ∨
      ∃ a x, s.tree.resolve p = some a ∧ s.tree.child a name = some x := by
  have hlisting : ∀ {Q : Name → Prop} {names : List Name}, (∀ name ∈ names, Q name) →
      (PathSample.listing data false names).Emits Q := by
    intro Q names hQ
    induction names with
    | nil => trivial
    | cons name names ih =>
      obtain ⟨hname, hnames⟩ := List.forall_mem_cons.mp hQ
      refine ⟨hname, fun taken => ?_⟩
      cases taken with
      | true => exact ih hnames
      | false => trivial
  unfold list
  split
  · trivial
  · next a ha =>
    refine hlisting (List.forall_mem_cons.mpr ⟨Or.inl rfl, List.forall_mem_cons.mpr
      ⟨Or.inr (Or.inl rfl), fun name hname => ?_⟩⟩)
    obtain ⟨x, hx⟩ := Option.isSome_iff_exists.mp (List.mem_filter.mp hname).2
    exact Or.inr (Or.inr ⟨a, x, ha, hx⟩)

end Store

/-- The filesystem is a tree filesystem. -/
def filesystem : TreeFilesystem inner where
  Obj := ℕ
  tree := Store.tree
  Valid := Store.Valid
  init := Store.valid_empty
  wf := Store.Valid.wf
  ordinary := fun h hx => h.ordinary hx
  call := by
    intro s c names r s' h hnames he
    obtain ⟨rfl, rfl⟩ := Prod.mk.inj (Option.some.inj he).symm
    cases c with
    | lookup p name caller =>
      refine ⟨h, rfl, fun attr hattr => ?_⟩
      change s.lookup p name = _ at hattr
      unfold Store.lookup at hattr
      split at hattr
      · cases hattr
      · next a ha =>
        obtain ⟨x, hx, _⟩ := Option.map_eq_some_iff.mp (Except.ok.inj hattr)
        exact ⟨a, x, ha, hx⟩
    | mknod p name mode rdev umask caller =>
      exact Store.make_spec h (List.forall_mem_singleton.mp hnames) false (by simp)
    | mkdir p name mode umask caller =>
      exact Store.make_spec h (List.forall_mem_singleton.mp hnames) true (by simp)
    | symlink p name target caller =>
      exact Store.make_spec h (List.forall_mem_singleton.mp hnames) false (by simp)
    | create p name mode umask flags caller =>
      exact Store.create_spec h (List.forall_mem_singleton.mp hnames)
    | unlink p name caller => exact Store.unlink_spec h
    | rmdir p name caller => exact Store.rmdir_spec h
    | rename p name p' name' caller =>
      exact Store.rename_spec h (List.forall_mem_singleton.mp (List.forall_mem_cons.mp hnames).2)
    | link p p' name' caller => exact Store.link_spec h (List.forall_mem_singleton.mp hnames)
    | readdir p handle offset caller => exact ⟨h, rfl, Store.list_emits _ _⟩
    | readdirplus p handle offset caller => exact ⟨h, rfl, Store.list_emits _ _⟩
    | _ => exact ⟨h, rfl⟩

/-! ## A run over it -/

/-- The adapter over the filesystem. -/
abbrev fs : NodeFs := pathNodeFs inner

/-- Proper requests come one at a time. -/
abbrev allowed : Config (service fs) → Action (service fs) → Prop :=
  oneAtATimeIf (Proper (P := inner))

instance (c : Config (service fs)) : DecidablePred (allowed c) :=
  @oneAtATimeIf.decidable (service fs) (Proper (P := inner)) (Proper.decidable (P := inner)) c

/-- The configuration after a list of actions that are allowed. -/
def reached (as : List (Action (service fs))) : Option (Config (service fs)) :=
  (start fs).runs (fun c a => decide (allowed c a)) as

/-- The configuration after a list of actions. -/
def after (as : List (Action (service fs))) : Config (service fs) :=
  (reached as).getD (start fs)

lemma run_after (as : List (Action (service fs))) (h : (reached as).isSome = true) :
    Run allowed (start fs) (after as) := by
  obtain ⟨c, hc⟩ := Option.isSome_iff_exists.mp h
  unfold after
  rw [hc]
  exact run_of_runs (fun _ _ => of_decide_eq_true) hc

/-- The next `m` instructions of thread `n`, with the names that are listed. -/
def steps (n m : ℕ) : List (Action (service fs)) :=
  List.replicate m (.step n (some [[120], [103]]))

/-- Requests that are served one after the other, with their numbers of instructions. -/
def wholes : ℕ → List (ℕ × Request) → List (Action (service fs))
  | _, [] => []
  | n, (m, req) :: rest => .issue req :: steps n m ++ .answer n :: wholes (n + 1) rest

/-- A populated directory is moved, a file gets a second name that is renamed to the first one and
removed, and an open file is overwritten, released and forgotten. -/
def requests : List (ℕ × Request) :=
  [(19, .makeOp (.mkdir NodeId.ROOT [100] 0 0) {}), (19, .makeOp (.mknod 2 [120] 0 0 0) {}),
    (13, .treeOp (.rename NodeId.ROOT [100] NodeId.ROOT [101] 0) {}),
    (18, .makeOp (.link 3 NodeId.ROOT [104]) {}),
    (9, .treeOp (.rename NodeId.ROOT [104] 2 [120] 0) {}),
    (21, .create NodeId.ROOT [102] 0 0 0 {}), (19, .makeOp (.mknod NodeId.ROOT [103] 0 0 0) {}),
    (14, .treeOp (.rename NodeId.ROOT [103] NodeId.ROOT [102] 0) {}),
    (9, .openNode .dir 2 0 {}), (21, .readdirplus 2 2 0 (fun _ _ => true) {}),
    (8, .treeOp (.unlink NodeId.ROOT [104]) {}), (12, .release .file 4 1 {}), (1, .forget 4 1)]

/-- After these requests. -/
def moved : List (Action (service fs)) :=
  wholes 0 requests

/-- The attributes of the file are asked for after that. -/
def asked : List (Action (service fs)) :=
  moved ++ .issue (.getattr 3 none {}) :: steps 13 4

/-- Whether the attributes of a node are asked for with a path. -/
def asksFor (c : Config (service fs)) (n ino : ℕ) (path : Path) : Bool :=
  match c.threads[n]? with
  | some ⟨_, .getattr ino' none _, .running (.act (.fs (.own i)) _)⟩ =>
    match (i : PathInstr inner) with
    | .inner (.getattr (some path') none _) => decide (ino' = ino ∧ path' = path)
    | _ => false
  | _ => false

lemma at_of_asksFor (c : Config (service fs)) (n ino : ℕ) (path : Path)
    (h : asksFor c n ino path = true) : ∃ caller caller', c.At n (.getattr ino none caller)
      (PathInstr.rt (.inner (.getattr (some path) none caller'))) := by
  unfold asksFor at h
  split at h
  · next ht =>
    split at h
    · obtain ⟨rfl, rfl⟩ := of_decide_eq_true h
      exact ⟨_, _, _, _, ht⟩
    · cases h
  · cases h

end TreeSample

end TypedFuse
