import TypedFuse.Conc.Sequential
import TypedFuse.Memory.Serving

/-!
# What is in the filesystem in memory

The answers of the requests that change names are those of a tree (`refines_tree`), and what this
means for the state itself is said without the tree: entries name nodes that are there and are of
the recorded kind, and both counts of links are exact (`consistent_of_run`).
-/

namespace TypedFuse

open Conc Conc.Service NodeTable TypedFuse.Runtime

namespace MemoryFs

/-- The data of a node that has links. -/
def dataOf (s : RtState sig) (id : NodeId) : Option NodeData :=
  (linkedCell s.table id).bind fun (c : ℕ) => s.fs.cells.lookup c

/-- The entry that a directory with links has under a name. -/
def entryOf (s : RtState sig) (d : Dentry) : Option DirEntry :=
  (dataOf s d.parent).bind fun dir =>
    match dir.content with
    | .dir entries => entries.lookup d.name
    | _ => none

/-- The entries of directories and the link counts agree. -/
structure Consistent (s : RtState sig) : Prop where
  /-- A node that has links has data. -/
  stored : ∀ id, 0 < s.table.count .links id → ∃ d, dataOf s id = some d
  /-- An entry names a node that has links and is of the recorded kind. -/
  entry : ∀ d e, entryOf s d = some e →
    ∃ data, dataOf s e.id = some data ∧ data.kind = e.kind
  /-- The node has as many links as it has names; the root has one more. -/
  links : ∀ id, s.table.count .links id =
    Set.ncard {d | ∃ e, entryOf s d = some e ∧ e.id = id} + if id = NodeId.ROOT then 1 else 0
  /-- A directory has one name. -/
  single : ∀ id d, dataOf s id = some d → d.kind = .directory → s.table.count .links id = 1
  /-- The link count that `stat` shows of a directory counts its subdirectories. -/
  subdirs : ∀ id d, dataOf s id = some d → d.kind = .directory → d.nlink =
    2 + Set.ncard {name | ∃ e, entryOf s ⟨id, name⟩ = some e ∧ e.kind = .directory}
  /-- That of another node counts its names. -/
  nlink : ∀ id d, dataOf s id = some d → d.kind ≠ .directory →
    d.nlink = s.table.count .links id

variable {uid gid : ℕ} {made : SystemTime} {s : RtState sig} {T : Tree}

/-- The data of a node shows what the tree says. -/
lemma shape_dataOf (h : Represents (view s) T) {id : NodeId} {d : NodeData}
    (hd : dataOf s id = some d) : 0 < T.links id ∧ d.shape = T.shape id := by
  obtain ⟨c, hc, hdata⟩ := Option.bind_eq_some_iff.mp hd
  have hpos : 0 < T.links id := h.holds.linked hc
  obtain ⟨c', hc', hshow⟩ := h.holds.shown hpos
  obtain rfl := Option.some.inj (hc.symm.trans hc')
  have hshape : shapes s.fs c = some d.shape := congrArg (Option.map NodeData.shape) hdata
  exact ⟨hpos, Option.some.inj (hshape.symm.trans hshow)⟩

/-- A node with links has data. -/
lemma dataOf_of_links (h : Represents (view s) T) {id : NodeId} (hid : 0 < T.links id) :
    ∃ d, dataOf s id = some d := by
  obtain ⟨c, hc, hshow⟩ := h.holds.shown hid
  obtain ⟨d, hd, _⟩ := Option.map_eq_some_iff.mp hshow
  refine ⟨d, ?_⟩
  unfold dataOf
  rw [show linkedCell s.table id = some c from hc]
  exact hd

/-- The entries are those of the tree. -/
lemma entryOf_eq (h : Represents (view s) T) (d : Dentry) :
    entryOf s d = T.lookup d.parent d.name := by
  unfold entryOf
  cases hdir : dataOf s d.parent with
  | none =>
    have hzero : T.links d.parent = 0 := by
      by_contra hne
      obtain ⟨dir, hsome⟩ := dataOf_of_links h (Nat.pos_of_ne_zero hne)
      rw [hdir] at hsome
      cases hsome
    exact (h.wf.lookup_eq_none hzero d.name).symm
  | some dir =>
    obtain ⟨hpos, hshape⟩ := shape_dataOf h hdir
    rw [Option.bind_some]
    rcases content_cases hshape with ⟨entries, hc, hkind, hlookup⟩ | ⟨hkind, hc⟩
    · rw [hc]
      exact hlookup d.name
    · have hnone : T.lookup d.parent d.name = none := by
        refine Option.map_eq_none_iff.mpr ?_
        by_contra hne
        obtain ⟨i, hi⟩ := Option.ne_none_iff_exists'.mp hne
        exact hkind (h.wf.parent hi).1
      rw [hnone]
      split
      · next entries hc' => exact absurd hc' (hc entries)
      · rfl

/-- A state that shows a tree is consistent. -/
lemma consistent_of_represents (h : Represents (view s) T) : Consistent s where
  stored := by
    intro id hid
    refine dataOf_of_links h ?_
    rw [← h.holds.links]
    exact hid
  entry := by
    intro d e he
    rw [entryOf_eq h] at he
    obtain ⟨i, hi, rfl⟩ := Option.map_eq_some_iff.mp he
    obtain ⟨data, hdata⟩ := dataOf_of_links h (Tree.links_pos hi)
    exact ⟨data, hdata, congrArg Shape.kind (shape_dataOf h hdata).2⟩
  links := by
    intro id
    have hlinks : s.table.count .links id = T.links id := h.holds.links id
    rw [hlinks, Tree.links, BTreeMap.countWhere_eq_ncard]
    congr 2
    ext d
    rw [Set.mem_ofPred_eq, Set.mem_ofPred_eq, entryOf_eq h]
    constructor
    · rintro ⟨i, hi, heq⟩
      obtain rfl := of_decide_eq_true heq
      exact ⟨⟨id, T.kind id⟩, Option.map_eq_some_iff.mpr ⟨id, hi, rfl⟩, rfl⟩
    · rintro ⟨e, he, rfl⟩
      obtain ⟨i, hi, rfl⟩ := Option.map_eq_some_iff.mp he
      exact ⟨i, hi, decide_eq_true rfl⟩
  single := by
    intro id d hd hkind
    obtain ⟨hpos, hshape⟩ := shape_dataOf h hd
    have hone := h.wf.single (i := id) ((congrArg Shape.kind hshape).symm.trans hkind)
    have hlinks : s.table.count .links id = T.links id := h.holds.links id
    omega
  subdirs := by
    intro id d hd hkind
    obtain ⟨hpos, hshape⟩ := shape_dataOf h hd
    have hnlink : d.nlink = T.nlink id := congrArg Shape.nlink hshape
    have himage : {d : Dentry | ∃ v, T.names.lookup d = some v ∧
          decide (id = d.parent ∧ T.kind v = .directory) = true} =
        (fun name => (⟨id, name⟩ : Dentry)) ''
          {name | ∃ e, entryOf s ⟨id, name⟩ = some e ∧ e.kind = .directory} := by
      ext d
      constructor
      · rintro ⟨i, hi, heq⟩
        obtain ⟨hp, hdir⟩ := of_decide_eq_true heq
        refine ⟨d.name, ⟨⟨i, T.kind i⟩, ?_, hdir⟩, by rw [hp]⟩
        rw [entryOf_eq h, hp]
        exact Option.map_eq_some_iff.mpr ⟨i, hi, rfl⟩
      · rintro ⟨name, ⟨e, he, hdir⟩, rfl⟩
        rw [entryOf_eq h] at he
        obtain ⟨i, hi, rfl⟩ := Option.map_eq_some_iff.mp he
        exact ⟨i, hi, decide_eq_true ⟨rfl, hdir⟩⟩
    have hkind' : T.kind id = .directory := (congrArg Shape.kind hshape).symm.trans hkind
    rw [hnlink, Tree.nlink, if_pos hkind', Tree.subdirs,
      BTreeMap.countWhere_eq_ncard, himage,
      Set.ncard_image_of_injective _ fun a b hab => (Dentry.mk.inj hab).2]
  nlink := by
    intro id d hd hkind
    obtain ⟨hpos, hshape⟩ := shape_dataOf h hd
    have hnlink : d.nlink = T.nlink id := congrArg Shape.nlink hshape
    have hkind' : d.kind = T.kind id := congrArg Shape.kind hshape
    have hlinks : s.table.count .links id = T.links id := h.holds.links id
    rw [hnlink, hlinks, Tree.nlink, if_neg (hkind' ▸ hkind)]

/-- The filesystem in memory is a tree of directories.  In every run in which the requests that
change names exclude each other and name nodes that have links, these were answered as a tree
answers them that was empty at first, and while none of them is under way the state shows that
tree. -/
theorem refines_tree {c : Config (service (fs uid gid made))}
    (hr : Run (exclusion uid gid made).Excludes (start (fs uid gid made)) c) :
    ∃ T, Serial (fun req T a T' => T.Step req a T') Tree.empty
        ((exclusion uid gid made).answered c) T ∧
      ((∀ n, ¬ (exclusion uid gid made).Under c n) → Represents (view c.state) T) :=
  sound.refines rfl represents_new hr

/-- In such runs the entries of directories and the link counts agree while no request that changes
names is under way. -/
theorem consistent_of_run {c : Config (service (fs uid gid made))}
    (hr : Run (exclusion uid gid made).Excludes (start (fs uid gid made)) c)
    (hidle : ∀ n, ¬ (exclusion uid gid made).Under c n) : Consistent c.state := by
  obtain ⟨T, _, hrep⟩ := sound.refines rfl represents_new hr
  exact consistent_of_represents (hrep hidle)

/-! ## Two requests at once -/

/-- The check behind `Exclusion.Excludes`. -/
def excludesCheck (c : Config (service (fs uid gid made))) :
    Action (service (fs uid gid made)) → Bool
  | .issue req =>
    !changesNames req ||
      (c.threads.all (fun t =>
          match t.phase with
          | .running _ => !changesNames t.req
          | .done _ => true) &&
        (Tree.named req).all fun id => 0 < c.state.table.count .links id)
  | _ => true

lemma not_under_of_all {c : Config (service (fs uid gid made))}
    (h : c.threads.all (fun t =>
      match t.phase with
      | .running _ => !changesNames t.req
      | .done _ => true) = true) (n : ℕ) : ¬ (exclusion uid gid made).Under c n := by
  rintro ⟨id, req, p, ht, hw⟩
  have hreq := List.all_eq_true.mp h _ (List.mem_of_getElem? ht)
  have hw' : changesNames req = true := hw
  simp [hw'] at hreq

lemma excludes_of_check (c : Config (service (fs uid gid made)))
    (a : Action (service (fs uid gid made))) (h : excludesCheck c a = true) :
    (exclusion uid gid made).Excludes c a := by
  cases a with
  | issue req =>
    intro hw
    rcases Bool.or_eq_true_iff.mp h with hread | hboth
    · have hread' : (!(exclusion uid gid made).writes req) = true := hread
      rw [hw] at hread'
      cases hread'
    · obtain ⟨hall, hlive⟩ := Bool.and_eq_true_iff.mp hboth
      refine ⟨not_under_of_all hall, fun id hid => ?_⟩
      exact of_decide_eq_true (List.all_eq_true.mp hlive id hid)
  | step n ch => trivial
  | answer n => trivial

/-- Steps of a thread, all at one time. -/
private def stepsAt (n m : ℕ) : List (Action (service (fs 0 0 .epoch))) :=
  List.replicate m (.step n (some SystemTime.epoch))

/-- A directory is made, a file is made in it and moved to the root; in between the directory is
looked up. -/
private def makingAndMoving : List (Action (service (fs 0 0 .epoch))) :=
  [.issue (.makeOp (.mkdir NodeId.ROOT [97] 0o755 0) {})] ++ stepsAt 0 15 ++ [.answer 0] ++
    [.issue (.create (2 : ℕ) [98] 0o644 0 0 {})] ++ stepsAt 1 6 ++
    [.issue (.lookup NodeId.ROOT [97] {})] ++ stepsAt 2 8 ++ [.answer 2] ++ stepsAt 1 11 ++
    [.answer 1] ++ [.issue (.treeOp (.rename (2 : ℕ) [98] NodeId.ROOT [99] 0) {})] ++
    stepsAt 3 19 ++ [.answer 3]

/-- The configuration after that. -/
private def moved : Config (service (fs 0 0 .epoch)) :=
  ((start (fs 0 0 .epoch)).runs excludesCheck makingAndMoving).getD (start (fs 0 0 .epoch))

private lemma run_moved : Run (exclusion 0 0 .epoch).Excludes (start (fs 0 0 .epoch)) moved := by
  have hsome : ((start (fs 0 0 .epoch)).runs excludesCheck makingAndMoving).isSome = true := by
    decide +kernel
  obtain ⟨c, hc⟩ := Option.isSome_iff_exists.mp hsome
  unfold moved
  rw [hc]
  exact run_of_runs excludes_of_check hc

/-- After that nothing is under way. -/
theorem refines_tree_moved : moved.threads.length = 4 ∧
    ∃ T, Serial (fun req T a T' => T.Step req a T') Tree.empty
        ((exclusion 0 0 .epoch).answered moved) T ∧
      ((∀ n, ¬ (exclusion 0 0 .epoch).Under moved n) → Represents (view moved.state) T) :=
  ⟨by decide +kernel, refines_tree run_moved⟩

/-- The directory and the file have one link each. -/
theorem consistent_of_run_moved : (view moved.state).links (2 : ℕ) = 1 ∧
    (view moved.state).links (3 : ℕ) = 1 ∧ Consistent moved.state :=
  ⟨by decide +kernel, by decide +kernel,
    consistent_of_run run_moved (not_under_of_all (by decide +kernel))⟩

end MemoryFs

end TypedFuse
