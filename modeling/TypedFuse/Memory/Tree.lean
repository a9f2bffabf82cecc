import TypedFuse.Memory.MemoryFs
import TypedFuse.Path.Namespace

/-!
# Trees of directories

What a filesystem with POSIX names is for: names in directories that are bound to nodes, and the
kind of every node.  A node has as many links as it has names, the root one more, and the number
of links that `stat` shows of a directory counts its own entry and those of its subdirectories.
`Tree.Step` says what a request does to the tree and what it is answered with; nothing here knows
how the nodes are stored.
-/

namespace TypedFuse

open MemoryFs (contentOf)

/-- Which names are bound to which nodes, and the kinds of the nodes. -/
structure Tree where
  names : BTreeMap Dentry NodeId
  kind : NodeId → FileKind

namespace Tree

/-- The tree of an empty filesystem. -/
def empty : Tree where
  names := ∅
  kind := fun _ => .directory

variable (T : Tree)

/-- The node that a name is bound to. -/
def find (d : Dentry) : Option NodeId :=
  T.names.lookup d

/-- The number of names of a node; the root has one that no directory holds. -/
def links (id : NodeId) : ℕ :=
  (T.names.countWhere fun _ v => id = v) + if id = NodeId.ROOT then 1 else 0

/-- The number of entries of a directory. -/
def size (id : NodeId) : ℕ :=
  T.names.countWhere fun d _ => id = d.parent

/-- The number of subdirectories of a directory. -/
def subdirs (id : NodeId) : ℕ :=
  T.names.countWhere fun d v => id = d.parent ∧ T.kind v = .directory

/-- The number of links that `stat` shows. -/
def nlink (id : NodeId) : ℕ :=
  if T.kind id = .directory then 2 + T.subdirs id else T.links id

/-- Bind a name. -/
def bind (d : Dentry) (id : NodeId) : Tree :=
  { T with names := T.names.insert d id }

/-- Take a name away. -/
def unbind (d : Dentry) : Tree :=
  { T with names := T.names.erase d }

/-- Give a node a kind. -/
def setKind (id : NodeId) (k : FileKind) : Tree :=
  { T with kind := Function.update T.kind id k }

/-- Bind a name to a new node. -/
def make (d : Dentry) (k : FileKind) (id : NodeId) : Tree :=
  (T.setKind id k).bind d id

/-- Bind the new name to the node that the old one was bound to. -/
def move (d d' : Dentry) (id : NodeId) : Tree :=
  ((T.unbind d').unbind d).bind d' id

/-! ## What may be changed -/

/-- A new name: its directory is one, and it is free. -/
def checkNew (d : Dentry) : Except Errno Unit :=
  if T.kind d.parent ≠ .directory then .error .ENOTDIR
  else if (T.find d).isSome then .error .EEXIST
  else .ok ()

/-- The node that a name is bound to, which has to be bound. -/
def entry (d : Dentry) : Except Errno NodeId :=
  if T.kind d.parent ≠ .directory then .error .ENOTDIR
  else
    match T.find d with
    | some id => .ok id
    | none => .error .ENOENT

/-- `link`. -/
def link (id : NodeId) (d : Dentry) : Except Errno Tree :=
  if T.kind id = .directory then .error .EPERM
  else (T.checkNew d).bind fun _ => .ok (T.bind d id)

/-- `unlink`. -/
def unlink (d : Dentry) : Except Errno Tree :=
  (T.entry d).bind fun id =>
    if T.kind id = .directory then .error .EISDIR
    else .ok (T.unbind d)

/-- `rmdir`. -/
def rmdir (d : Dentry) : Except Errno Tree :=
  (T.entry d).bind fun id =>
    if T.kind id ≠ .directory then .error .ENOTDIR
    else if T.size id ≠ 0 then .error .ENOTEMPTY
    else .ok (T.unbind d)

/-- May a node be replaced by one of this kind? -/
def checkReplaced (id : NodeId) (k : FileKind) : Except Errno Unit :=
  if T.kind id = .directory then
    if k ≠ .directory then .error .EISDIR
    else if T.size id ≠ 0 then .error .ENOTEMPTY
    else .ok ()
  else if k = .directory then .error .ENOTDIR
  else .ok ()

/-- `rename`. -/
def rename (d d' : Dentry) : Except Errno Tree :=
  (T.entry d).bind fun id =>
    if T.kind d'.parent ≠ .directory then .error .ENOTDIR
    else
      match T.find d' with
      | none => .ok (T.move d d' id)
      | some id' =>
        if id' = id then .ok T
        else (T.checkReplaced id' (T.kind id)).bind fun _ => .ok (T.move d d' id)

/-! ## What requests do -/

/-- A change that fails is answered with its error and leaves the tree alone; one that succeeds is
answered as `good` says. -/
def Settles (r : Except Errno Tree) (good : Fallible Reply → Tree → Prop) (a : Fallible Reply)
    (T' : Tree) : Prop :=
  match r with
  | .error e => a = fail e ∧ T' = T
  | .ok T₁ => T' = T₁ ∧ good a T'

/-- An entry that shows a node of the tree. -/
structure Shows (id : NodeId) (e : Entry) : Prop where
  ino : e.reply.ino = id
  kind : e.reply.attr.kind = T.kind id
  nlink : e.reply.attr.nlink = T.nlink id

/-- A new node gets a name. -/
def Makes (d : Dentry) (k : FileKind) (good : Fallible Reply → Entry → Prop)
    (a : Fallible Reply) (T' : Tree) : Prop :=
  match T.checkNew d with
  | .error e => a = fail e ∧ T' = T
  | .ok _ => ∃ id e, T.links id = 0 ∧ T' = T.make d k id ∧ good a e ∧ T'.Shows id e

/-- What a request does to the tree, and its answer. -/
def Step (req : Request) (a : Fallible Reply) (T' : Tree) : Prop :=
  match req with
  | .makeOp (.mknod parent name mode _ _) _ =>
    match contentOf mode with
    | none => a = fail .EINVAL ∧ T' = T
    | some (k, _) => T.Makes ⟨parent, name⟩ k (fun a e => a = .ok (.entry e)) a T'
  | .makeOp (.mkdir parent name _ _) _ =>
    T.Makes ⟨parent, name⟩ .directory (fun a e => a = .ok (.entry e)) a T'
  | .makeOp (.symlink parent name _) _ =>
    T.Makes ⟨parent, name⟩ .symlink (fun a e => a = .ok (.entry e)) a T'
  | .makeOp (.link id newparent newname) _ =>
    T.Settles (T.link id ⟨newparent, newname⟩)
      (fun a T' => ∃ e, a = .ok (.entry e) ∧ T'.Shows id e) a T'
  | .create parent name _ _ _ _ =>
    T.Makes ⟨parent, name⟩ .regularFile
      (fun a e => ∃ fh hints, a = .ok (.created e fh hints)) a T'
  | .treeOp (.unlink parent name) _ =>
    T.Settles (T.unlink ⟨parent, name⟩) (fun a _ => a = .ok (.value .unit)) a T'
  | .treeOp (.rmdir parent name) _ =>
    T.Settles (T.rmdir ⟨parent, name⟩) (fun a _ => a = .ok (.value .unit)) a T'
  | .treeOp (.rename parent name newparent newname _) _ =>
    T.Settles (T.rename ⟨parent, name⟩ ⟨newparent, newname⟩)
      (fun a _ => a = .ok (.value .unit)) a T'
  | _ => T' = T

/-- The nodes that a request names: a node that is gone cannot be named. -/
def named : Request → List NodeId
  | .makeOp (.mknod parent _ _ _ _) _ => [parent]
  | .makeOp (.mkdir parent _ _ _) _ => [parent]
  | .makeOp (.symlink parent _ _) _ => [parent]
  | .makeOp (.link id newparent _) _ => [id, newparent]
  | .create parent _ _ _ _ _ => [parent]
  | .treeOp (.unlink parent _) _ => [parent]
  | .treeOp (.rmdir parent _) _ => [parent]
  | .treeOp (.rename parent _ newparent _ _) _ => [parent, newparent]
  | _ => []

/-! ## Counting names -/

variable {T}

lemma find_bind (d e : Dentry) (id : NodeId) :
    (T.bind d id).find e = if e = d then some id else T.find e :=
  BTreeMap.lookup_insert_ite T.names d e id

lemma find_unbind (d e : Dentry) : (T.unbind d).find e = if e = d then none else T.find e :=
  BTreeMap.lookup_erase_ite T.names d e

lemma kind_setKind (id : NodeId) (k : FileKind) (i : NodeId) :
    (T.setKind id k).kind i = if i = id then k else T.kind i :=
  Function.update_apply T.kind id k i

/-- Taking a free name away does nothing. -/
lemma unbind_free {d : Dentry} (h : T.find d = none) : T.unbind d = T := by
  have hnames : T.names.erase d = T.names := by
    refine Finmap.ext_lookup fun e => ?_
    rw [BTreeMap.lookup_erase_ite]
    split
    · next he => rw [he]; exact h.symm
    · rfl
  rw [unbind, hnames]

lemma links_bind {d : Dentry} (h : T.find d = none) (id i : NodeId) :
    (T.bind d id).links i = T.links i + if i = id then 1 else 0 := by
  unfold links bind
  rw [BTreeMap.countWhere_insert h]
  simp only [decide_eq_true_eq]
  omega

lemma links_unbind {d : Dentry} {id : NodeId} (h : T.find d = some id) (i : NodeId) :
    (T.unbind d).links i + (if i = id then 1 else 0) = T.links i := by
  unfold links unbind
  have herase := BTreeMap.countWhere_erase h fun _ v => decide (i = v)
  simp only [decide_eq_true_eq] at herase ⊢
  omega

lemma subdirs_bind {d : Dentry} (h : T.find d = none) (id i : NodeId) :
    (T.bind d id).subdirs i =
      T.subdirs i + if i = d.parent ∧ T.kind id = .directory then 1 else 0 := by
  unfold subdirs bind
  rw [BTreeMap.countWhere_insert h]
  simp only [decide_eq_true_eq]

lemma subdirs_unbind {d : Dentry} {id : NodeId} (h : T.find d = some id) (i : NodeId) :
    (T.unbind d).subdirs i + (if i = d.parent ∧ T.kind id = .directory then 1 else 0) =
      T.subdirs i := by
  unfold subdirs unbind
  have herase := BTreeMap.countWhere_erase h
    fun e v => decide (i = e.parent ∧ T.kind v = .directory)
  simp only [decide_eq_true_eq] at herase ⊢
  exact herase

/-- A node without links has no name. -/
lemma find_ne_of_links {id : NodeId} (h : T.links id = 0) (d : Dentry) : T.find d ≠ some id := by
  intro hd
  have hlinks := links_unbind hd id
  rw [if_pos rfl] at hlinks
  omega

/-- A node with a name has links. -/
lemma links_pos {d : Dentry} {id : NodeId} (h : T.find d = some id) : 0 < T.links id := by
  by_contra hzero
  exact find_ne_of_links (by omega) d h

lemma links_root : 0 < T.links NodeId.ROOT := by
  unfold links
  rw [if_pos rfl]
  omega

/-- A directory without entries. -/
lemma size_eq_zero_iff {id : NodeId} :
    T.size id = 0 ↔ ∀ name, T.find ⟨id, name⟩ = none := by
  unfold size
  rw [BTreeMap.countWhere_eq_zero_iff]
  constructor
  · intro h name
    by_contra hne
    obtain ⟨v, hv⟩ := Option.ne_none_iff_exists'.mp hne
    have hid := h ⟨id, name⟩ v hv
    simp at hid
  · rintro h ⟨parent, name⟩ v hv
    by_contra hp
    obtain rfl : id = parent := by simpa using hp
    have hnone : T.names.lookup ⟨id, name⟩ = none := h name
    rw [hnone] at hv
    cases hv

/-- The kind of a node without a name does not count. -/
lemma subdirs_setKind {id : NodeId} (h : T.links id = 0) (k : FileKind) (i : NodeId) :
    (T.setKind id k).subdirs i = T.subdirs i := by
  unfold subdirs setKind
  refine BTreeMap.countWhere_congr ?_
  intro d v hv
  have hne : v ≠ id := by
    rintro rfl
    exact find_ne_of_links h d hv
  simp only [Function.update_of_ne hne]

/-- The names of a tree after a name has moved to another one. -/
lemma find_move (d d' e : Dentry) (id : NodeId) :
    (T.move d d' id).find e =
      if e = d' then some id else if e = d then none else T.find e := by
  unfold move
  rw [find_bind, find_unbind, find_unbind]
  split_ifs <;> rfl

/-- The links after a name has moved to another one: only the node that was replaced loses one. -/
lemma links_move {d d' : Dentry} {id : NodeId} (h : T.find d = some id) (hne : d ≠ d')
    (i : NodeId) :
    (T.move d d' id).links i + (if T.find d' = some i then 1 else 0) = T.links i := by
  have hd : (T.unbind d').find d = some id := by rw [find_unbind, if_neg hne, h]
  have hd' : ((T.unbind d').unbind d).find d' = none := by
    rw [find_unbind, if_neg hne.symm, find_unbind, if_pos rfl]
  have hbind := links_bind hd' id i
  have hunbind := links_unbind hd i
  have hmove : (T.move d d' id).links i + (if i = id then 1 else 0) =
      (T.unbind d').links i + if i = id then 1 else 0 := by
    unfold move
    omega
  cases hfind : T.find d' with
  | none =>
    rw [unbind_free hfind] at hmove
    simp only [reduceCtorEq, if_false]
    omega
  | some id' =>
    have hfirst := links_unbind hfind i
    simp only [Option.some.injEq, @eq_comm _ id' i]
    omega

/-- The subdirectories after a name has moved to another one. -/
lemma subdirs_move {d d' : Dentry} {id : NodeId} (h : T.find d = some id) (hne : d ≠ d')
    (i : NodeId) :
    (T.move d d' id).subdirs i + (if i = d.parent ∧ T.kind id = .directory then 1 else 0) +
        (if i = d'.parent ∧ ∃ id', T.find d' = some id' ∧
          T.kind id' = .directory then 1 else 0) =
      T.subdirs i + if i = d'.parent ∧ T.kind id = .directory then 1 else 0 := by
  have hd : (T.unbind d').find d = some id := by rw [find_unbind, if_neg hne, h]
  have hd' : ((T.unbind d').unbind d).find d' = none := by
    rw [find_unbind, if_neg hne.symm, find_unbind, if_pos rfl]
  have hbind : (T.move d d' id).subdirs i = ((T.unbind d').unbind d).subdirs i +
      if i = d'.parent ∧ T.kind id = .directory then 1 else 0 := subdirs_bind hd' id i
  have hunbind : ((T.unbind d').unbind d).subdirs i +
      (if i = d.parent ∧ T.kind id = .directory then 1 else 0) = (T.unbind d').subdirs i :=
    subdirs_unbind hd i
  cases hfind : T.find d' with
  | none =>
    rw [unbind_free hfind] at hunbind hbind
    simp only [reduceCtorEq, false_and, exists_false, and_false, if_false]
    omega
  | some id' =>
    have hfirst := subdirs_unbind hfind i
    simp only [Option.some.injEq, exists_eq_left']
    omega

/-! ## Well-formed trees -/

/-- Entries are in directories that are still there, and a directory has at most one name. -/
structure WF (T : Tree) : Prop where
  root : T.kind NodeId.ROOT = .directory
  parent : ∀ {d i}, T.find d = some i → T.kind d.parent = .directory ∧ 0 < T.links d.parent
  single : ∀ {i}, T.kind i = .directory → T.links i ≤ 1

namespace WF

lemma empty : WF Tree.empty where
  root := rfl
  parent := fun h => nomatch h
  single := by
    intro i _
    unfold links
    simp only [Tree.empty, BTreeMap.countWhere_empty]
    split <;> omega

/-- What `checkNew` has found. -/
lemma of_checkNew {d : Dentry} (h : T.checkNew d = .ok ()) :
    T.kind d.parent = .directory ∧ T.find d = none := by
  unfold checkNew at h
  split_ifs at h with hkind hfind
  exact ⟨by simpa using hkind, by simpa using hfind⟩

/-- What `entry` has found. -/
lemma of_entry {d : Dentry} {id : NodeId} (h : T.entry d = .ok id) :
    T.kind d.parent = .directory ∧ T.find d = some id := by
  unfold entry at h
  split_ifs at h with hkind
  split at h
  · next i hi =>
    obtain rfl := Except.ok.inj h
    exact ⟨by simpa using hkind, hi⟩
  · cases h

lemma make (hT : T.WF) {d : Dentry} (hnew : T.checkNew d = .ok ()) (hdir : 0 < T.links d.parent)
    {id : NodeId} (hid : T.links id = 0) (k : FileKind) : (T.make d k id).WF := by
  obtain ⟨hkind, hfree⟩ := of_checkNew hnew
  have hlinks : ∀ i, (T.make d k id).links i = T.links i + if i = id then 1 else 0 :=
    links_bind (T := T.setKind id k) hfree id
  have hold : ∀ {i}, 0 < T.links i → (T.make d k id).kind i = T.kind i := by
    intro i hi
    refine Function.update_of_ne ?_ k T.kind
    rintro rfl
    omega
  refine ⟨(hold links_root).trans hT.root, ?_, ?_⟩
  · intro e i he
    have hpos : T.kind e.parent = .directory ∧ 0 < T.links e.parent := by
      have he' : (if e = d then some id else T.find e) = some i :=
        (find_bind (T := T.setKind id k) d e id).symm.trans he
      split at he'
      · next heq => exact heq ▸ ⟨hkind, hdir⟩
      · exact hT.parent he'
    rw [hold hpos.2, hlinks]
    exact ⟨hpos.1, by omega⟩
  · intro i hi
    rw [hlinks]
    by_cases hiid : i = id
    · subst hiid
      rw [hid, if_pos rfl]
    · rw [if_neg hiid]
      refine hT.single ?_
      rw [← hi]
      exact (Function.update_of_ne hiid k T.kind).symm

lemma link (hT : T.WF) {d : Dentry} (hnew : T.checkNew d = .ok ()) (hdir : 0 < T.links d.parent)
    {id : NodeId} (hid : T.kind id ≠ .directory) : (T.bind d id).WF := by
  obtain ⟨hkind, hfree⟩ := of_checkNew hnew
  refine ⟨hT.root, ?_, ?_⟩
  · intro e i he
    rw [links_bind hfree]
    rw [find_bind] at he
    have hold : T.kind e.parent = .directory ∧ 0 < T.links e.parent := by
      split at he
      · next heq => exact heq ▸ ⟨hkind, hdir⟩
      · exact hT.parent he
    exact ⟨hold.1, by omega⟩
  · intro i hi
    rw [links_bind hfree, if_neg]
    · exact hT.single hi
    · rintro rfl
      exact hid hi

lemma unbind (hT : T.WF) {d : Dentry} {id : NodeId} (h : T.find d = some id)
    (hid : T.kind id ≠ .directory ∨ T.size id = 0) : (T.unbind d).WF := by
  refine ⟨hT.root, ?_, ?_⟩
  · intro e i he
    rw [find_unbind] at he
    split at he
    · cases he
    obtain ⟨hkind, hpos⟩ := hT.parent he
    refine ⟨hkind, ?_⟩
    have hlinks := links_unbind h e.parent
    have hne : e.parent ≠ id := by
      rintro rfl
      rcases hid with hid | hid
      · exact hid hkind
      · have hnone := size_eq_zero_iff.mp hid e.name
        rw [show (⟨e.parent, e.name⟩ : Dentry) = e from rfl, he] at hnone
        cases hnone
    rw [if_neg hne] at hlinks
    omega
  · intro i hi
    have hlinks := links_unbind h i
    have := hT.single hi
    omega

lemma move (hT : T.WF) {d d' : Dentry} {id : NodeId} (h : T.find d = some id) (hne : d ≠ d')
    (hdir : T.kind d'.parent = .directory) (hpos : 0 < T.links d'.parent)
    (hid : ∀ i, T.find d' = some i → T.kind i ≠ .directory ∨ T.size i = 0)
    (hself : T.find d' ≠ some d'.parent) : (T.move d d' id).WF := by
  refine ⟨hT.root, ?_, ?_⟩
  · intro e i he
    have hlinks := links_move h hne e.parent
    rw [find_move] at he
    split at he
    · next heq =>
      subst heq
      rw [if_neg hself] at hlinks
      exact ⟨hdir, by omega⟩
    split at he
    · cases he
    obtain ⟨hkind, hlive⟩ := hT.parent he
    refine ⟨hkind, ?_⟩
    have hrep : T.find d' ≠ some e.parent := by
      intro hd'
      rcases hid _ hd' with hid | hid
      · exact hid hkind
      · have hnone := size_eq_zero_iff.mp hid e.name
        rw [show (⟨e.parent, e.name⟩ : Dentry) = e from rfl, he] at hnone
        cases hnone
    rw [if_neg hrep] at hlinks
    omega
  · intro i hi
    have hlinks := links_move h hne i
    have hone : T.links i ≤ 1 := hT.single hi
    omega

end WF

end Tree

end TypedFuse
