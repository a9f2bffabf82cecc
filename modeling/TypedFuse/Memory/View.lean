import TypedFuse.Conc.Exclusive
import TypedFuse.Core.Reclaim
import TypedFuse.Memory.Tree

/-!
# What requests that change names see

The *view* of the filesystem in memory is the part of the state that only requests which change
names write to: which cell belongs to a node that has links, how many, and the kinds, the entries
and the link counts in the cells.  The other requests leave it alone (`performs_reader`), and what
a callback does to it is followed step by step: `View.Holds` says of a view what links the nodes
have and what their cells show, and there is one lemma for every step.
-/

namespace TypedFuse

open Conc Conc.Service NodeTable TypedFuse.Runtime

namespace MemoryFs

/-! ## The view -/

/-- What the cell of a node says about names. -/
@[ext]
structure Shape where
  kind : FileKind
  entries : Option (Name → Option DirEntry)
  nlink : ℕ

/-- The part of the data of a node that is about names. -/
def NodeData.shape (d : NodeData) : Shape where
  kind := d.kind
  entries :=
    match d.content with
    | .dir entries => some fun name => entries.lookup name
    | _ => none
  nlink := d.nlink

/-- The links and the cells of the nodes that have links, and what is in the cells. -/
structure View where
  links : NodeId → ℕ
  cellOf : NodeId → Option ℕ
  cell : ℕ → Option Shape
  next : ℕ

/-- The cell of a live node. -/
def cellIn (t : NodeTable sig.Node) (id : NodeId) : Option sig.Node :=
  (t.slot id).map fun sl => sl.record.payload

lemma cellIn_of_slot {t : NodeTable sig.Node} {id : NodeId} {sl : Slot sig.Node}
    (h : t.slot id = some sl) : cellIn t id = some sl.record.payload := by
  unfold cellIn
  rw [h]
  rfl

/-- The cell of a node that has links. -/
def linkedCell (t : NodeTable sig.Node) (id : NodeId) : Option sig.Node :=
  if 0 < t.count .links id then cellIn t id else none

/-- The shapes of the cells. -/
def shapes (h : Heap) (c : ℕ) : Option Shape :=
  (h.cells.lookup c).map NodeData.shape

/-- The view of a state. -/
def view (s : RtState sig) : View where
  links := fun id => s.table.count .links id
  cellOf := fun id => linkedCell s.table id
  cell := shapes s.fs
  next := s.fs.next

/-- What the sections under a write guard do to the names. -/
def Update.onShape (v : Shape) : Update → Shape
  | .linkInto name entry _ =>
    { v with
      entries := v.entries.map fun f => Function.update f name (some entry)
      nlink := if entry.kind = .directory then v.nlink + 1 else v.nlink }
  | .removeEntry name _ => { v with entries := v.entries.map fun f => Function.update f name none }
  | .removeSubdir name _ =>
    { v with entries := v.entries.map fun f => Function.update f name none, nlink := v.nlink - 1 }
  | .unlinked _ => { v with nlink := v.nlink - 1 }
  | .removed _ => { v with nlink := 0 }
  | .linked _ => { v with nlink := v.nlink + 1 }
  | .insertEntry name entry =>
    { v with entries := v.entries.map fun f => Function.update f name (some entry) }
  | .addSubdir => { v with nlink := v.nlink + 1 }
  | .dropSubdir => { v with nlink := v.nlink - 1 }
  | _ => v

/-- These sections are not about names. -/
def Update.Neutral : Update → Prop
  | .touch _ | .setattr _ _ | .write _ _ _ | .setxattr _ _ _ _ | .removexattr _ _ => True
  | _ => False

section Shape

variable {d d' : NodeData}

lemma shape_insertEntry (d : NodeData) (name : Name) (e : DirEntry) :
    (d.insertEntry name e).shape =
      { d.shape with
        entries := d.shape.entries.map fun f => Function.update f name (some e) } := by
  unfold NodeData.insertEntry
  cases h : d.content with
  | dir entries =>
    unfold NodeData.shape
    simp only [h, Option.map_some, Shape.mk.injEq, true_and, Option.some.injEq, and_true]
    funext k
    rw [BTreeMap.lookup_insert_ite, Function.update_apply]
  | file data | symlink target | special =>
    unfold NodeData.shape
    simp only [h, Option.map_none]

lemma shape_eraseEntry (d : NodeData) (name : Name) :
    (d.eraseEntry name).shape =
      { d.shape with entries := d.shape.entries.map fun f => Function.update f name none } := by
  unfold NodeData.eraseEntry
  cases h : d.content with
  | dir entries =>
    unfold NodeData.shape
    simp only [h, Option.map_some, Shape.mk.injEq, true_and, Option.some.injEq, and_true]
    funext k
    rw [BTreeMap.lookup_erase_ite, Function.update_apply]
  | file data | symlink target | special =>
    unfold NodeData.shape
    simp only [h, Option.map_none]

lemma shape_addLink (h : d.addLink = some d') :
    d'.shape = { d.shape with nlink := d.nlink + 1 } := by
  unfold NodeData.addLink at h
  split at h
  · obtain rfl := Option.some.inj h
    rfl
  · cases h

lemma shape_setattr {set : SetAttr} {now : SystemTime} (h : d.setattr set now = some d') :
    d'.shape = d.shape := by
  obtain ⟨d₁, h₁, rfl⟩ := Option.map_eq_some_iff.mp h
  have hfirst : d₁.shape = d.shape := by
    split at h₁
    · next size data _ hdata =>
      split at h₁
      · obtain rfl := Option.some.inj h₁
        have hdata' : d.content = .file data := hdata
        unfold NodeData.shape
        simp only [hdata']
      · cases h₁
    · obtain rfl := Option.some.inj h₁
      rfl
  rw [← hfirst]
  split
  · rfl
  · split <;> rfl

lemma shape_write {data : List UInt8} {offset : ℕ} {now : SystemTime} {r : Fallible ℕ}
    (h : d.write data offset now = some (r, d')) : d'.shape = d.shape := by
  unfold NodeData.write at h
  split at h
  · next content hcontent =>
    dsimp only at h
    split at h
    · obtain ⟨_, rfl⟩ := Prod.mk.inj (Option.some.inj h)
      unfold NodeData.shape NodeData.touch
      simp only [hcontent]
    · cases h
  · obtain ⟨_, rfl⟩ := Prod.mk.inj (Option.some.inj h)
    rfl

lemma shape_setxattr (d : NodeData) (name : Name) (value : List UInt8) (flags : ℤ)
    (now : SystemTime) : (d.setxattr name value flags now).2.shape = d.shape := by
  unfold NodeData.setxattr
  dsimp only
  split
  · rfl
  · split <;> rfl

lemma shape_removexattr (d : NodeData) (name : Name) (now : SystemTime) :
    (d.removexattr name now).2.shape = d.shape := by
  unfold NodeData.removexattr
  split <;> rfl

lemma shape_linkInto {name : Name} {e : DirEntry} {now : SystemTime}
    (h : d.linkInto name e now = some d') :
    d'.shape = (Update.linkInto name e now).onShape d.shape := by
  obtain ⟨d₂, h₂, rfl⟩ := Option.map_eq_some_iff.mp h
  have hinsert := shape_insertEntry d name e
  have hnlink : (d.insertEntry name e).nlink = d.nlink := congrArg Shape.nlink hinsert
  have htouch : (d₂.touch now).shape = d₂.shape := rfl
  rw [htouch]
  split at h₂
  · next hdir =>
    rw [shape_addLink h₂, hinsert, hnlink]
    simp only [Update.onShape, if_pos hdir]
    rfl
  · next hdir =>
    obtain rfl := Option.some.inj h₂
    rw [hinsert]
    simp only [Update.onShape, if_neg hdir]

/-- What the sections do to the names is what they do to the data of the node. -/
lemma shape_update {u : Update} {r : u.Resp} (h : d.update u = some (r, d')) :
    d'.shape = u.onShape d.shape := by
  cases u with
  | linkInto name e now =>
    obtain ⟨d₁, h₁, heq⟩ := Option.map_eq_some_iff.mp h
    obtain ⟨_, rfl⟩ := Prod.mk.inj heq
    exact shape_linkInto h₁
  | removeEntry name now =>
    obtain ⟨_, rfl⟩ := Prod.mk.inj (Option.some.inj h)
    exact shape_eraseEntry d name
  | removeSubdir name now =>
    obtain ⟨_, rfl⟩ := Prod.mk.inj (Option.some.inj h)
    have herase := shape_eraseEntry d name
    exact congrArg (fun v : Shape => { v with nlink := d.nlink - 1 }) herase
  | unlinked now | removed now | touch now | dropSubdir =>
    obtain ⟨_, rfl⟩ := Prod.mk.inj (Option.some.inj h)
    rfl
  | linked now =>
    obtain ⟨d₁, h₁, heq⟩ := Option.map_eq_some_iff.mp h
    obtain ⟨_, rfl⟩ := Prod.mk.inj heq
    have hshape := shape_addLink h₁
    exact hshape
  | addSubdir =>
    obtain ⟨d₁, h₁, heq⟩ := Option.map_eq_some_iff.mp h
    obtain ⟨_, rfl⟩ := Prod.mk.inj heq
    exact shape_addLink h₁
  | insertEntry name e =>
    unfold NodeData.update at h
    dsimp only at h
    split at h
    · obtain ⟨_, rfl⟩ := Prod.mk.inj (Option.some.inj h)
      exact shape_insertEntry d name e
    · next hc =>
      obtain ⟨_, rfl⟩ := Prod.mk.inj (Option.some.inj h)
      cases hd : d.content with
      | dir entries => exact absurd hd (hc entries)
      | file data | symlink target | special =>
        unfold Update.onShape NodeData.shape
        simp only [hd, Option.map_none]
  | setattr set now =>
    obtain ⟨d₁, h₁, heq⟩ := Option.map_eq_some_iff.mp h
    obtain ⟨_, rfl⟩ := Prod.mk.inj heq
    exact shape_setattr h₁
  | write data offset now => exact shape_write h
  | setxattr name value flags now =>
    have hd' : d' = (d.setxattr name value flags now).2 :=
      (congrArg Prod.snd (Option.some.inj h)).symm
    rw [hd']
    exact shape_setxattr d name value flags now
  | removexattr name now =>
    have hd' : d' = (d.removexattr name now).2 := (congrArg Prod.snd (Option.some.inj h)).symm
    rw [hd']
    exact shape_removexattr d name now

lemma onShape_neutral {u : Update} (h : u.Neutral) (v : Shape) : u.onShape v = v := by
  cases u with
  | touch now | setattr set now | write data offset now | setxattr name value flags now
  | removexattr name now => rfl
  | linkInto name e now | removeEntry name now | removeSubdir name now | unlinked now | removed now
  | linked now | insertEntry name e | addSubdir | dropSubdir => exact h.elim

end Shape

/-! ## Steps that leave the view alone -/

section Neutral

variable {s s' : RtState sig} {n : ℕ}

/-- Calm steps keep the cells of the nodes that have links. -/
lemma linkedCell_calm {t t' : NodeTable sig.Node} (h : Calm t t') (id : NodeId) :
    linkedCell t' id = linkedCell t id := by
  unfold linkedCell
  rw [h.links]
  split
  · next hpos =>
    rw [← h.links] at hpos
    obtain ⟨sl', hsl'⟩ := slot_of_count_pos hpos
    obtain ⟨sl, hsl, hrec, _⟩ := h.origin id sl' hsl'
    rw [cellIn_of_slot hsl', cellIn_of_slot hsl, hrec]
  · rfl

/-- Calm steps leave the view alone. -/
lemma view_calm (h : Calm s.table s'.table) (hfs : s'.fs = s.fs) : view s' = view s := by
  have hlinks : (fun id => s'.table.count .links id) = fun id => s.table.count .links id :=
    funext h.links
  have hcells : linkedCell s'.table = linkedCell s.table := funext (linkedCell_calm h)
  unfold view
  rw [hfs, hlinks, hcells]

/-- The shapes after a cell was written. -/
lemma shapes_insert (h : Heap) (c : ℕ) (d : NodeData) (next : ℕ) :
    shapes ⟨h.cells.insert c d, next⟩ = Function.update (shapes h) c (some d.shape) := by
  funext k
  unfold shapes
  rw [BTreeMap.lookup_insert_ite, Function.update_apply]
  split <;> rfl

/-- The view after a cell was written. -/
lemma view_write (s : RtState sig) (c : ℕ) (d : NodeData) :
    view { s with fs := { cells := s.fs.cells.insert c d, next := s.fs.next } } =
      { view s with cell := Function.update (view s).cell c (some d.shape) } :=
  congrArg (fun f => View.mk (view s).links (view s).cellOf f (view s).next)
    (shapes_insert s.fs c d s.fs.next)

/-- These instructions leave the view alone. -/
def Neutral : RtInstr sig → Prop
  | .fs (.insert _ _) => False
  | .fs (.addLink _) => False
  | .fs (.removeLink _) => False
  | .fs (.own (Instr.alloc _)) => False
  | .fs (.own (Instr.write _ u)) => u.Neutral
  | _ => True

lemma neutral_of_runtime {i : RtInstr sig} (hi : ∀ j, i ≠ .fs j) : Neutral i := by
  cases i with
  | fs j => exact absurd rfl (hi j)
  | _ => trivial

lemma view_neutral {i : RtInstr sig} {ch : Option SystemTime} {r : i.Resp} (hi : Neutral i)
    (he : s.exec n i ch = some (r, s')) : view s' = view s := by
  by_cases hfs : ∃ j, i = .fs j
  · obtain ⟨j, rfl⟩ := hfs
    cases j with
    | get id =>
      obtain ⟨⟨o, t'⟩, hget, heq⟩ := Option.map_eq_some_iff.mp he
      obtain ⟨_, rfl⟩ := Prod.mk.inj heq
      exact view_calm (Calm.get hget) rfl
    | contains id =>
      obtain ⟨_, rfl⟩ := Prod.mk.inj (Option.some.inj he)
      rfl
    | insert payload parent | addLink id | removeLink id => exact hi.elim
    | reparent id newParent =>
      obtain ⟨_, rfl⟩ := Prod.mk.inj (Option.some.inj he)
      exact view_calm (Calm.reparent _ _ _) rfl
    | dropRef ref =>
      change (if ref.key ∈ s.hist.fsRefs then some ((), _) else none) = some (r, s') at he
      split at he
      · obtain ⟨_, rfl⟩ := Prod.mk.inj (Option.some.inj he)
        exact view_calm (Calm.dropRef _ _) rfl
      · cases he
    | own o =>
      cases ch with
      | none => cases he
      | some ch =>
        obtain ⟨⟨r', h'⟩, hexec, heq⟩ := Option.map_eq_some_iff.mp he
        obtain ⟨_, rfl⟩ := Prod.mk.inj heq
        cases o with
        | now =>
          obtain ⟨_, rfl⟩ := Prod.mk.inj (Option.some.inj hexec)
          rfl
        | alloc data => exact hi.elim
        | read c =>
          obtain ⟨d, _, heq⟩ := Option.map_eq_some_iff.mp hexec
          obtain ⟨_, rfl⟩ := Prod.mk.inj heq
          rfl
        | write c u =>
          obtain ⟨d, hd, hupdate⟩ := Option.bind_eq_some_iff.mp hexec
          obtain ⟨⟨r'', d'⟩, hd', heq⟩ := Option.map_eq_some_iff.mp hupdate
          obtain ⟨_, rfl⟩ := Prod.mk.inj heq
          refine (view_write s c d').trans ?_
          have hsame : some d'.shape = (view s).cell c := by
            rw [shape_update hd', onShape_neutral hi]
            exact (congrArg (Option.map NodeData.shape) hd).symm
          rw [hsame, Function.update_eq_self]
  · obtain ⟨hcalm, hfs'⟩ := calm_exec (fun j hj => hfs ⟨j, hj⟩) he
    exact view_calm hcalm hfs'

/-- Likewise for an instruction of a callback. -/
lemma view_neutral_fs {i : FsInstr sig} {ch : Option SystemTime} {r : i.Resp}
    (hi : Neutral (.fs i)) (he : s.execFs n i ch = some (r, s')) : view s' = view s :=
  view_neutral (i := .fs i) hi he

end Neutral

end MemoryFs

end TypedFuse
