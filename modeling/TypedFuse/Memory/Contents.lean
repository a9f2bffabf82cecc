import Mathlib.Data.List.GetD
import TypedFuse.Memory.View

/-!
# The contents of files

A file is a sequence of bytes.  Each `write` and each `setattr` with a size changes it in one step,
each `read` looks at it in one step, and no other instruction changes it.
-/

namespace TypedFuse

open Conc Conc.Service NodeTable TypedFuse.Runtime

namespace MemoryFs

/-! ## Bytes -/

/-- The bytes of a file after `data` was written at an offset; a gap before it is filled with
zeros. -/
def written (data : List UInt8) (offset : ℕ) (content : List UInt8) : List UInt8 :=
  (List.range (max content.length (offset + data.length))).map fun i =>
    if offset ≤ i ∧ i < offset + data.length then data.getD (i - offset) 0 else content.getD i 0

/-- The bytes of a file after its size was set. -/
def truncated (size : ℕ) (content : List UInt8) : List UInt8 :=
  (List.range size).map fun i => content.getD i 0

lemma resize_eq (content : List UInt8) (size : ℕ) :
    resize content size = truncated size content := by
  unfold resize truncated
  refine List.ext_getElem ?_ ?_
  · simp only [List.length_append, List.length_take, List.length_replicate, List.length_map,
      List.length_range]
    omega
  · intro i h₁ h₂
    simp only [List.length_map, List.length_range] at h₂
    simp only [List.getElem_map, List.getElem_range]
    rw [List.getElem_append]
    split
    · next hi =>
      simp only [List.length_take] at hi
      rw [List.getElem_take, List.getD_eq_getElem _ _ (by omega)]
    · next hi =>
      simp only [List.length_take] at hi
      rw [List.getElem_replicate, List.getD_eq_default _ _ (by omega)]

/-- Writing over a file that was made long enough. -/
lemma overwrite_eq (content data : List UInt8) (offset : ℕ) :
    NodeData.overwrite (if offset + data.length > content.length
      then resize content (offset + data.length) else content) data offset =
      written data offset content := by
  have hpadded : (if offset + data.length > content.length
      then resize content (offset + data.length) else content) =
      truncated (max content.length (offset + data.length)) content := by
    split
    · next hlong => rw [resize_eq, max_eq_right hlong.le]
    · next hlong =>
      rw [max_eq_left (not_lt.mp hlong), ← resize_eq, resize, List.take_length, Nat.sub_self,
        List.replicate_zero, List.append_nil]
  rw [hpadded]
  unfold NodeData.overwrite truncated written
  refine List.ext_getElem ?_ ?_
  · simp only [List.length_append, List.length_take, List.length_drop, List.length_map,
      List.length_range]
    omega
  · intro i h₁ h₂
    simp only [List.length_map, List.length_range] at h₂
    simp only [List.getElem_map, List.getElem_range]
    rw [List.getElem_append]
    split
    · next hi =>
      rw [List.getElem_append]
      split
      · next hlow =>
        simp only [List.length_take, List.length_map, List.length_range] at hlow
        rw [List.getElem_take, List.getElem_map, List.getElem_range, if_neg (by omega)]
      · next hlow =>
        simp only [List.length_append, List.length_take, List.length_map, List.length_range]
          at hi hlow
        have hoffset : min offset (max content.length (offset + data.length)) = offset := by omega
        rw [if_pos (by omega), List.getD_eq_getElem _ _ (by omega)]
        simp only [List.length_take, List.length_map, List.length_range, hoffset]
    · next hi =>
      simp only [List.length_append, List.length_take, List.length_map, List.length_range] at hi
      rw [if_neg (by omega), List.getElem_drop, List.getElem_map, List.getElem_range]
      simp only [List.length_append, List.length_take, List.length_map, List.length_range]
      congr 1
      omega

/-! ## What steps do to files -/

/-- The bytes of a node that is a file. -/
def fileOf (d : NodeData) : Option (List UInt8) :=
  match d.content with
  | .file content => some content
  | _ => none

/-- The bytes of the files in the cells. -/
def files (h : Heap) (c : ℕ) : Option (List UInt8) :=
  (h.cells.lookup c).bind fileOf

/-- The change of a file that an instruction makes, given its answer: a write that fails makes
none. -/
def changeOf : (i : RtInstr sig) → i.Resp → Option (ℕ × (List UInt8 → List UInt8))
  | .fs (.own (Instr.write c (.write data offset _))), r =>
    match (show Fallible ℕ from r) with
    | .ok _ => some (c, written data offset)
    | .error _ => none
  | .fs (.own (Instr.write c (.setattr req _))), _ => req.size.map fun size => (c, truncated size)
  | _, _ => none

/-- A section under a write guard changes no other cell. -/
lemma changeOf_cell {c c' : ℕ} {u : Update} {r : u.Resp} {change : List UInt8 → List UInt8}
    (h : changeOf (.fs (.own (Instr.write c u))) r = some (c', change)) : c' = c := by
  cases u with
  | write data offset now =>
    cases hr : (show Fallible ℕ from r) with
    | ok m =>
      obtain rfl : r = (.ok m : Fallible ℕ) := hr
      exact (Prod.mk.inj (Option.some.inj h)).1.symm
    | error e =>
      obtain rfl : r = (.error e : Fallible ℕ) := hr
      cases h
  | setattr req now =>
    obtain ⟨size, _, heq⟩ := Option.map_eq_some_iff.mp h
    exact (Prod.mk.inj heq).1.symm
  | _ => cases h

lemma fileOf_insertEntry (d : NodeData) (name : Name) (e : DirEntry) :
    fileOf (d.insertEntry name e) = fileOf d := by
  unfold NodeData.insertEntry
  split
  · next h =>
    unfold fileOf
    rw [h]
  · rfl

lemma fileOf_eraseEntry (d : NodeData) (name : Name) : fileOf (d.eraseEntry name) = fileOf d := by
  unfold NodeData.eraseEntry
  split
  · next h =>
    unfold fileOf
    rw [h]
  · rfl

lemma fileOf_addLink {d d' : NodeData} (h : d.addLink = some d') : fileOf d' = fileOf d := by
  unfold NodeData.addLink at h
  split at h
  · obtain rfl := Option.some.inj h
    rfl
  · cases h

lemma fileOf_setattr {d d' : NodeData} {req : SetAttr} {now : SystemTime}
    (h : d.setattr req now = some d') :
    fileOf d' = match req.size with
      | some size => (fileOf d).map (truncated size)
      | none => fileOf d := by
  obtain ⟨d₁, h₁, rfl⟩ := Option.map_eq_some_iff.mp h
  have hfirst : fileOf d₁ = match req.size with
      | some size => (fileOf d).map (truncated size)
      | none => fileOf d := by
    split at h₁
    · next size data hsize hdata =>
      have hdata' : d.content = .file data := hdata
      split at h₁
      · obtain rfl := Option.some.inj h₁
        rw [hsize]
        unfold fileOf
        rw [hdata']
        exact congrArg some (resize_eq data size)
      · cases h₁
    · next hnot =>
      obtain rfl := Option.some.inj h₁
      split
      · next size hsize =>
        unfold fileOf
        dsimp only
        split
        · next data hdata => exact absurd hdata (hnot size data hsize)
        · rfl
      · rfl
  rw [← hfirst]
  split
  · rfl
  · split <;> rfl

lemma fileOf_write {d d' : NodeData} {data : List UInt8} {offset : ℕ} {now : SystemTime}
    {r : Fallible ℕ} (h : d.write data offset now = some (r, d')) :
    (∃ content, fileOf d = some content ∧ r = .ok data.length ∧
      fileOf d' = some (written data offset content)) ∨
    (r = fail .EISDIR ∧ fileOf d' = fileOf d) := by
  unfold NodeData.write at h
  split at h
  · next content hcontent =>
    dsimp only at h
    split at h
    · obtain ⟨rfl, rfl⟩ := Prod.mk.inj (Option.some.inj h)
      refine Or.inl ⟨content, ?_, rfl, ?_⟩
      · unfold fileOf
        rw [hcontent]
      · exact congrArg some (overwrite_eq content data offset)
    · cases h
  · obtain ⟨rfl, rfl⟩ := Prod.mk.inj (Option.some.inj h)
    exact Or.inr ⟨rfl, rfl⟩

/-- What a section under a write guard does to the bytes of the node. -/
lemma fileOf_update {d d' : NodeData} {u : Update} {r : u.Resp} (h : d.update u = some (r, d'))
    (c : ℕ) : fileOf d' =
      match changeOf (.fs (.own (Instr.write c u))) r with
      | some (_, change) => (fileOf d).map change
      | none => fileOf d := by
  cases u with
  | write data offset now =>
    rcases fileOf_write h with ⟨content, hd, hr, hd'⟩ | ⟨hr, hd'⟩
    · obtain rfl : r = (.ok data.length : Fallible ℕ) := hr
      rw [hd', hd]
      rfl
    · obtain rfl : r = (fail .EISDIR : Fallible ℕ) := hr
      exact hd'
  | setattr req now =>
    obtain ⟨d₁, h₁, heq⟩ := Option.map_eq_some_iff.mp h
    obtain ⟨_, rfl⟩ := Prod.mk.inj heq
    have hchange : changeOf (.fs (.own (Instr.write c (.setattr req now)))) r =
        req.size.map fun size => (c, truncated size) := rfl
    rw [fileOf_setattr h₁, hchange]
    cases req.size with
    | none => rfl
    | some size => rfl
  | linkInto name e now =>
    obtain ⟨d₁, h₁, heq⟩ := Option.map_eq_some_iff.mp h
    obtain ⟨_, rfl⟩ := Prod.mk.inj heq
    obtain ⟨d₂, h₂, rfl⟩ := Option.map_eq_some_iff.mp h₁
    have hinsert := fileOf_insertEntry d name e
    split at h₂
    · exact (fileOf_addLink h₂).trans hinsert
    · obtain rfl := Option.some.inj h₂
      exact hinsert
  | removeEntry name now | removeSubdir name now =>
    obtain ⟨_, rfl⟩ := Prod.mk.inj (Option.some.inj h)
    exact fileOf_eraseEntry d name
  | unlinked now | removed now | touch now | dropSubdir =>
    obtain ⟨_, rfl⟩ := Prod.mk.inj (Option.some.inj h)
    rfl
  | linked now =>
    obtain ⟨d₁, h₁, heq⟩ := Option.map_eq_some_iff.mp h
    obtain ⟨_, rfl⟩ := Prod.mk.inj heq
    have hadd := fileOf_addLink h₁
    exact hadd
  | addSubdir =>
    obtain ⟨d₁, h₁, heq⟩ := Option.map_eq_some_iff.mp h
    obtain ⟨_, rfl⟩ := Prod.mk.inj heq
    exact fileOf_addLink h₁
  | insertEntry name e =>
    unfold NodeData.update at h
    dsimp only at h
    split at h
    · obtain ⟨_, rfl⟩ := Prod.mk.inj (Option.some.inj h)
      exact fileOf_insertEntry d name e
    · obtain ⟨_, rfl⟩ := Prod.mk.inj (Option.some.inj h)
      rfl
  | setxattr name value flags now =>
    have hd' : d' = (d.setxattr name value flags now).2 :=
      (congrArg Prod.snd (Option.some.inj h)).symm
    rw [hd']
    unfold NodeData.setxattr
    dsimp only
    split
    · rfl
    · split <;> rfl
  | removexattr name now =>
    have hd' : d' = (d.removexattr name now).2 :=
      (congrArg Prod.snd (Option.some.inj h)).symm
    rw [hd']
    unfold NodeData.removexattr
    split <;> rfl

/-- The bytes after a cell was written. -/
lemma files_insert (h : Heap) (c : ℕ) (d : NodeData) (next : ℕ) :
    files ⟨h.cells.insert c d, next⟩ = Function.update (files h) c (fileOf d) := by
  funext k
  unfold files
  rw [BTreeMap.lookup_insert_ite, Function.update_apply]
  split <;> rfl

/-- What the instructions do to the cells: most leave them alone, a new node gets the next cell, and
a section under a write guard changes the cell of its node. -/
inductive HeapStep (h : Heap) : (i : RtInstr sig) → i.Resp → Heap → Prop where
  | same {i : RtInstr sig} {r : i.Resp} (hi : ∀ c u, i ≠ .fs (.own (Instr.write c u))) :
    HeapStep h i r h
  | alloc (d : NodeData) : HeapStep h (.fs (.own (Instr.alloc d))) h.next
      ⟨h.cells.insert h.next d, h.next + 1⟩
  | write {c : ℕ} {u : Update} {d d' : NodeData} {r : u.Resp} (hd : h.cells.lookup c = some d)
    (hu : d.update u = some (r, d')) : HeapStep h (.fs (.own (Instr.write c u))) r
      ⟨h.cells.insert c d', h.next⟩

/-- Every instruction takes such a step. -/
lemma heapStep_exec {s s' : RtState sig} {n : ℕ} {i : RtInstr sig} {ch : Option SystemTime}
    {r : i.Resp} (he : s.exec n i ch = some (r, s')) : HeapStep s.fs i r s'.fs := by
  by_cases hfs : ∃ j, i = .fs j
  · obtain ⟨j, rfl⟩ := hfs
    cases j with
    | own o =>
      cases ch with
      | none => cases he
      | some ch =>
        obtain ⟨⟨r', h'⟩, hexec, heq⟩ := Option.map_eq_some_iff.mp he
        obtain ⟨rfl, rfl⟩ := Prod.mk.inj heq
        cases o with
        | now =>
          obtain ⟨_, rfl⟩ := Prod.mk.inj (Option.some.inj hexec)
          exact .same fun _ _ h => nomatch h
        | alloc data =>
          obtain ⟨rfl, rfl⟩ := Prod.mk.inj (Option.some.inj hexec)
          exact .alloc data
        | read c =>
          obtain ⟨d, _, heq⟩ := Option.map_eq_some_iff.mp hexec
          obtain ⟨_, rfl⟩ := Prod.mk.inj heq
          exact .same fun _ _ h => nomatch h
        | write c u =>
          obtain ⟨d, hd, hupdate⟩ := Option.bind_eq_some_iff.mp hexec
          obtain ⟨⟨r'', d'⟩, hd', heq⟩ := Option.map_eq_some_iff.mp hupdate
          obtain ⟨rfl, rfl⟩ := Prod.mk.inj heq
          exact .write hd hd'
    | dropRef ref =>
      change (if ref.key ∈ s.hist.fsRefs then some ((), _) else none) = some (r, s') at he
      split at he
      · obtain ⟨_, rfl⟩ := Prod.mk.inj (Option.some.inj he)
        exact .same fun _ _ h => nomatch h
      · cases he
    | get id | insert payload parent | addLink id =>
      obtain ⟨_, _, heq⟩ := Option.map_eq_some_iff.mp he
      obtain ⟨_, rfl⟩ := Prod.mk.inj heq
      exact .same fun _ _ h => nomatch h
    | contains id | reparent id newParent | removeLink id =>
      obtain ⟨_, rfl⟩ := Prod.mk.inj (Option.some.inj he)
      exact .same fun _ _ h => nomatch h
  · rw [(calm_exec (fun j hj => hfs ⟨j, hj⟩) he).2]
    exact .same fun c u hi => hfs ⟨_, hi⟩

/-- The bytes in a cell after an instruction. -/
def rewritten (i : RtInstr sig) (r : i.Resp) (c : ℕ) (bytes : List UInt8) : List UInt8 :=
  match changeOf i r with
  | some (c', change) => if c' = c then change bytes else bytes
  | none => bytes

lemma changeOf_of_ne {i : RtInstr sig} (hi : ∀ c u, i ≠ .fs (.own (Instr.write c u)))
    (r : i.Resp) : changeOf i r = none := by
  unfold changeOf
  split
  · exact absurd rfl (hi _ _)
  · exact absurd rfl (hi _ _)
  · rfl

namespace HeapStep

variable {h h' : Heap} {i : RtInstr sig} {r : i.Resp}

/-- A step changes the files that were there as its instruction says, and no other. -/
lemma files_eq (hstep : HeapStep h i r h') {c : ℕ} (hc : c ≠ h.next) :
    files h' c = (files h c).map (rewritten i r c) := by
  unfold rewritten
  cases hstep with
  | same hi =>
    rw [changeOf_of_ne hi]
    exact Option.map_id'.symm
  | alloc d =>
    rw [files_insert, Function.update_of_ne hc]
    exact Option.map_id'.symm
  | @write c' u d d' r hd hu =>
    have hfile := fileOf_update hu c'
    have hold : files h c' = fileOf d := congrArg (Option.bind · fileOf) hd
    rw [files_insert, Function.update_apply]
    cases hof : changeOf (.fs (.own (Instr.write c' u))) r with
    | none =>
      rw [hof, ← hold] at hfile
      split
      · next hcc =>
        rw [hfile, hcc]
        exact Option.map_id'.symm
      · exact Option.map_id'.symm
    | some p =>
      obtain ⟨k, change⟩ := p
      obtain rfl := changeOf_cell hof
      rw [hof, ← hold] at hfile
      dsimp only at hfile ⊢
      split
      · next hcc =>
        subst hcc
        rw [hfile]
        simp
      · next hcc => simp [Ne.symm hcc]

/-- Every cell is below the next one. -/
lemma bounded (hstep : HeapStep h i r h') (hb : ∀ c d, h.cells.lookup c = some d → c < h.next) :
    h.next ≤ h'.next ∧ ∀ c d, h'.cells.lookup c = some d → c < h'.next := by
  cases hstep with
  | same hi => exact ⟨le_rfl, hb⟩
  | alloc d =>
    refine ⟨Nat.le_succ _, ?_⟩
    intro c d' hc
    rw [BTreeMap.lookup_insert_ite] at hc
    split at hc
    · next hnext => exact hnext ▸ Nat.lt_succ_self _
    · exact (hb c d' hc).trans (Nat.lt_succ_self _)
  | @write c' u d d' r hd hu =>
    refine ⟨le_rfl, ?_⟩
    intro c d₁ hc
    rw [BTreeMap.lookup_insert_ite] at hc
    split at hc
    · next hcc => exact hcc ▸ hb c' d hd
    · exact hb c d₁ hc

/-- Only what is there is changed. -/
lemma changed_lt (hstep : HeapStep h i r h')
    (hb : ∀ c d, h.cells.lookup c = some d → c < h.next) {c : ℕ}
    {change : List UInt8 → List UInt8} (hof : changeOf i r = some (c, change)) : c < h.next := by
  cases hstep with
  | same hi => cases (changeOf_of_ne hi r).symm.trans hof
  | alloc d => cases hof
  | @write c' u d d' r hd hu =>
    rw [changeOf_cell hof]
    exact hb c' d hd

/-- A new file holds what it is made with. -/
lemma file_new (hstep : HeapStep h i r h')
    (hb : ∀ c d, h.cells.lookup c = some d → c < h.next) {bytes : List UInt8}
    (hfile : files h' h.next = some bytes) :
    ∃ d, i = .fs (.own (Instr.alloc d)) ∧ d.content = .file bytes := by
  have hnone : files h h.next = none := by
    unfold files
    cases hd : h.cells.lookup h.next with
    | none => rfl
    | some d => exact absurd (hb _ d hd) (lt_irrefl _)
  cases hstep with
  | same hi => cases hnone.symm.trans hfile
  | alloc d =>
    rw [files_insert, Function.update_self] at hfile
    refine ⟨d, rfl, ?_⟩
    unfold fileOf at hfile
    split at hfile
    · next content hcontent => rw [hcontent, Option.some.inj hfile]
    · cases hfile
  | write hd hu =>
    rw [files_insert, Function.update_of_ne (hb _ _ hd).ne'] at hfile
    cases hnone.symm.trans hfile

end HeapStep

end MemoryFs

end TypedFuse
