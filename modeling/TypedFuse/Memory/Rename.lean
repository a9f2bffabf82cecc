import TypedFuse.Memory.Refines

/-!
# `rename`

A name moves in three stages: the entries of the two directories, the link counts of the
directories when a directory moved to another one, and the node that the new name was bound to
before.  In between the cells show `Tree.moving`: the entries of the tree after the request with
the link counts of the tree before it.
-/

namespace TypedFuse

open Conc Conc.Service NodeTable TypedFuse.Runtime

namespace Tree

open MemoryFs (Shape Update)

variable {T : Tree} {d d' : Dentry} {id : NodeId}

/-- The entries have moved, and the link counts are the old ones. -/
def moving (T : Tree) (d d' : Dentry) (id x : NodeId) : Shape where
  kind := T.kind x
  entries := if T.kind x = .directory then some ((T.move d d' id).lookup x) else none
  nlink := T.nlink x

/-- What is left to be done are the link counts. -/
lemma shape_move (x : NodeId) :
    (T.move d d' id).shape x =
      { T.moving d d' id x with nlink := (T.move d d' id).nlink x } := rfl

lemma lookup_move (x : NodeId) :
    (T.move d d' id).lookup x =
      let f := if x = d.parent then Function.update (T.lookup x) d.name none else T.lookup x
      if x = d'.parent then Function.update f d'.name (some ⟨id, T.kind id⟩) else f := by
  have hbind : (T.move d d' id).lookup x = _ :=
    lookup_bind (T := (T.unbind d').unbind d) d' id x
  rw [hbind, lookup_unbind, lookup_unbind]
  have hkind : ((T.unbind d').unbind d).kind = T.kind := rfl
  rw [hkind]
  by_cases hx' : x = d'.parent
  · simp only [if_pos hx']
    by_cases hx : x = d.parent
    · simp only [if_pos hx]
      by_cases hname : d.name = d'.name
      · rw [hname, Function.update_idem, Function.update_idem]
      · rw [Function.update_comm hname, Function.update_idem, Function.update_comm hname]
    · simp only [if_neg hx, Function.update_idem]
  · simp only [if_neg hx']

/-- The entry leaves the old directory, and the new one takes it in. -/
lemma moving_eq (hdir : T.kind d.parent = .directory) (hdir' : T.kind d'.parent = .directory)
    (t : SystemTime) (x : NodeId) :
    T.moving d d' id x =
      Function.update (Function.update T.shape d.parent
          ((Update.removeEntry d.name t).onShape (T.shape d.parent))) d'.parent
        ((Update.insertEntry d'.name ⟨id, T.kind id⟩).onShape
          (Function.update T.shape d.parent
            ((Update.removeEntry d.name t).onShape (T.shape d.parent)) d'.parent)) x := by
  unfold moving
  rw [lookup_move, Function.update_apply]
  by_cases hx' : x = d'.parent
  · rw [if_pos hx', Function.update_apply]
    subst hx'
    by_cases hx : d'.parent = d.parent
    · rw [if_pos hx]
      simp only [Update.onShape, shape, hx, hdir, if_true, Option.map_some]
    · rw [if_neg hx]
      simp only [Update.onShape, shape, hx, hdir', if_true, if_false, Option.map_some]
  · rw [if_neg hx', Function.update_apply]
    by_cases hx : x = d.parent
    · rw [if_pos hx]
      subst hx
      rw [Function.update_self]
      simp only [Update.onShape, shape, hx', hdir, if_true, if_false, Option.map_some]
    · rw [Function.update_of_ne hx]
      simp only [if_neg hx, if_neg hx', shape]

/-- The link counts that `stat` shows of directories after a name moved. -/
lemma nlink_move_dir (h : T.find d = some id) (hne : d ≠ d') {x : NodeId}
    (hx : T.kind x = .directory) :
    (T.move d d' id).nlink x + (if x = d.parent ∧ T.kind id = .directory then 1 else 0) +
        (if x = d'.parent ∧ ∃ id', T.find d' = some id' ∧
          T.kind id' = .directory then 1 else 0) =
      T.nlink x + if x = d'.parent ∧ T.kind id = .directory then 1 else 0 := by
  have hsubdirs := subdirs_move h hne x
  have hkind : (T.move d d' id).kind x = .directory := hx
  unfold nlink
  rw [if_pos hkind, if_pos hx]
  omega

/-- And those of the other nodes. -/
lemma nlink_move_other (h : T.find d = some id) (hne : d ≠ d') {x : NodeId}
    (hx : T.kind x ≠ .directory) :
    (T.move d d' id).nlink x + (if T.find d' = some x then 1 else 0) = T.nlink x := by
  have hkind : (T.move d d' id).kind x ≠ .directory := hx
  unfold nlink
  rw [if_neg hkind, if_neg hx]
  exact links_move h hne x

/-- The link counts that `stat` shows after a name moved: that of a directory is about the
directories in it, that of another node about the names that it lost. -/
lemma nlink_move (h : T.find d = some id) (hne : d ≠ d') (hdir : T.kind d.parent = .directory)
    (hdir' : T.kind d'.parent = .directory)
    (hrep : ∀ i, T.find d' = some i → (T.kind i = .directory ↔ T.kind id = .directory))
    (x : NodeId) :
    (T.move d d' id).nlink x =
      let m := if T.kind id = .directory ∧ d.parent ≠ d'.parent then
          if x = d'.parent then T.nlink x + 1
          else if x = d.parent then T.nlink x - 1
          else T.nlink x
        else T.nlink x
      if ∃ i, T.find d' = some i ∧
          if T.kind i = .directory then x = d'.parent else x = i then m - 1
      else m := by
  by_cases hx : T.kind x = .directory
  · have hmove := nlink_move_dir h hne hx
    have hreplaced : (∃ i, T.find d' = some i ∧
        if T.kind i = .directory then x = d'.parent else x = i) ↔
          x = d'.parent ∧ ∃ i, T.find d' = some i ∧ T.kind i = .directory := by
      constructor
      · rintro ⟨i, hi, hcase⟩
        split at hcase
        · next hkind => exact ⟨hcase, i, hi, hkind⟩
        · next hkind => exact absurd (hcase ▸ hx) hkind
      · rintro ⟨hxp, i, hi, hkind⟩
        exact ⟨i, hi, by rwa [if_pos hkind]⟩
    have hdirs : (∃ i, T.find d' = some i ∧ T.kind i = .directory) →
        T.kind id = .directory := by
      rintro ⟨i, hi, hkind⟩
      exact (hrep i hi).mp hkind
    simp only [hreplaced]
    by_cases hkind : T.kind id = .directory
    · simp only [hkind, and_true, true_and] at hmove ⊢
      by_cases hrepl : x = d'.parent ∧ ∃ i, T.find d' = some i ∧ T.kind i = .directory
      · have hxp := hrepl.1
        rw [if_pos hrepl, if_pos hxp] at hmove
        rw [if_pos hrepl]
        by_cases hpp : d.parent = d'.parent
        · rw [if_pos (hxp.trans hpp.symm)] at hmove
          rw [if_neg (not_not.mpr hpp)]
          omega
        · rw [if_neg fun heq => hpp (heq.symm.trans hxp)] at hmove
          rw [if_pos hpp, if_pos hxp]
          omega
      · rw [if_neg hrepl] at hmove ⊢
        by_cases hpp : d.parent = d'.parent
        · rw [hpp] at hmove
          rw [if_neg (not_not.mpr hpp)]
          omega
        · rw [if_pos hpp]
          by_cases hxp : x = d'.parent
          · rw [if_neg fun heq => hpp (heq.symm.trans hxp), if_pos hxp] at hmove
            rw [if_pos hxp]
            omega
          · rw [if_neg hxp] at hmove ⊢
            by_cases hxq : x = d.parent
            · rw [if_pos hxq] at hmove ⊢
              omega
            · rw [if_neg hxq] at hmove ⊢
              omega
    · have hnone : ¬∃ i, T.find d' = some i ∧ T.kind i = .directory :=
        fun hex => hkind (hdirs hex)
      simp only [hkind, hnone, and_false, false_and, if_false, Nat.add_zero] at hmove ⊢
      exact hmove
  · have hmove := nlink_move_other h hne hx
    have hp : x ≠ d.parent := by
      rintro rfl
      exact hx hdir
    have hp' : x ≠ d'.parent := by
      rintro rfl
      exact hx hdir'
    simp only [hp, hp', if_false, ite_self]
    cases hfind : T.find d' with
    | none =>
      rw [hfind] at hmove
      simpa using hmove
    | some i =>
      rw [hfind] at hmove
      simp only [Option.some.injEq, exists_eq_left'] at hmove ⊢
      by_cases hix : i = x
      · subst hix
        rw [if_pos rfl] at hmove
        rw [if_pos (by rw [if_neg hx])]
        omega
      · rw [if_neg hix] at hmove
        have hother : ¬if T.kind i = .directory then False else x = i := by
          split
          · exact fun h => h
          · exact fun heq => hix heq.symm
        rw [if_neg hother]
        exact hmove

/-- What may be replaced. -/
lemma of_checkReplaced {id' : NodeId} {k : FileKind} (h : T.checkReplaced id' k = .ok ()) :
    (T.kind id' = .directory ↔ k = .directory) ∧
      (T.kind id' ≠ .directory ∨ T.size id' = 0) := by
  unfold checkReplaced at h
  split_ifs at h with hid hk hsize hk
  · exact ⟨iff_of_true hid (not_not.mp hk), Or.inr (not_not.mp hsize)⟩
  · exact ⟨iff_of_false hid hk, Or.inl hid⟩

end Tree

namespace MemoryFs

namespace Does

variable {uid gid : ℕ} {made : SystemTime} {n : ℕ} {w : View} {T : Tree} {L : NodeId → ℕ}
  {A : NodeId → Shape}

/-- A name may be replaced, or the view stays. -/
lemma checkReplaced (h : Represents w T) {id : NodeId} (hid : 0 < T.links id) (k : FileKind) :
    Does uid gid made n w (checkReplaced (k = .directory) id) fun r w' =>
      w' = w ∧ r = lift (T.checkReplaced id k) := by
  refine (readNode h.holds hid).bind ?_
  rintro r _ ⟨rfl, d, rfl, hd⟩
  unfold Tree.checkReplaced
  rcases content_cases hd with ⟨entries, hc, hkind, hlookup⟩ | ⟨hkind, hc⟩
  · dsimp only
    rw [hc, if_pos hkind]
    refine ret ⟨rfl, ?_⟩
    by_cases hk : k = .directory
    · rw [if_neg (by simpa using hk), if_neg (not_not.mpr hk)]
      by_cases hsize : T.size id = 0
      · rw [if_neg (not_not.mpr ((empty_iff hlookup).mpr hsize)), if_neg (not_not.mpr hsize)]
        rfl
      · rw [if_pos fun he => hsize ((empty_iff hlookup).mp he), if_pos hsize]
        rfl
    · rw [if_pos (by simpa using hk), if_pos hk]
      rfl
  · dsimp only
    rw [if_neg hkind]
    split
    · next hc' => exact absurd hc' (hc _)
    · refine ret ⟨rfl, ?_⟩
      by_cases hk : k = .directory
      · rw [if_pos (by simpa using hk), if_pos hk]
        rfl
      · rw [if_neg (by simpa using hk), if_neg hk]
        rfl

/-- A directory moves to another one. -/
lemma moveSubdir (h : w.Holds L A) {parent newparent : NodeId} (hp : 0 < L parent)
    (hp' : 0 < L newparent) (hne : newparent ≠ parent) (target : NodeId) :
    Does uid gid made n w (moveSubdir target parent newparent) fun _ w' =>
      w'.Holds L fun x => { A x with
        nlink := if x = newparent then (A x).nlink + 1
          else if x = parent then (A x).nlink - 1
          else (A x).nlink } := by
  refine (neutral (i := .reparent target newparent) trivial).bind ?_
  rintro _ _ rfl
  refine (writeNode h hp .dropSubdir).bind ?_
  rintro _ w₁ ⟨h₁, _⟩
  refine (writeNode h₁ hp' .addSubdir).bind ?_
  rintro _ w₂ ⟨h₂, _⟩
  refine ret (h₂.congr (fun _ => rfl) fun x _ => ?_)
  rw [Function.update_apply, Function.update_of_ne hne, Function.update_apply]
  by_cases hx' : x = newparent
  · rw [if_pos hx', if_pos hx', hx']
    rfl
  · rw [if_neg hx', if_neg hx']
    by_cases hx : x = parent
    · rw [if_pos hx, if_pos hx, hx]
      rfl
    · rw [if_neg hx, if_neg hx]

/-- The node that the new name was bound to loses it. -/
lemma dropReplaced (h : w.Holds L A) {newparent : NodeId} (hp : 0 < L newparent)
    (now : SystemTime) (e : DirEntry) (hid : 0 < L e.id)
    (hdir : e.kind = .directory → L e.id = 1) :
    Does uid gid made n w (dropReplaced newparent now (some e)) fun _ w' =>
      w'.Holds (fun x => if x = e.id then L x - 1 else L x) fun x => { A x with
        nlink := if (if e.kind = .directory then x = newparent else x = e.id) then (A x).nlink - 1
          else (A x).nlink } := by
  refine ite (fun hkind => ?_) fun hkind => ?_
  · refine (writeNode h hp .dropSubdir).bind ?_
    rintro _ w₁ ⟨h₁, _⟩
    refine (writeNode h₁ hid (.removed now)).bind ?_
    rintro _ w₂ ⟨h₂, _⟩
    refine (removeLink h₂ hid).mono ?_
    intro _ w₃ h₃
    have hdead : ∀ x,
        Function.update L e.id (L e.id - 1) x = if x = e.id then L x - 1 else L x := by
      intro x
      rw [Function.update_apply]
      split
      · next hx => rw [hx]
      · rfl
    refine h₃.congr (fun x => (hdead x).symm) ?_
    intro x hx
    have hxe : x ≠ e.id := by
      rintro rfl
      rw [Function.update_self, hdir hkind] at hx
      exact absurd hx (lt_irrefl 0)
    rw [Function.update_of_ne hxe, Function.update_apply]
    simp only [if_pos hkind]
    by_cases hxp : x = newparent
    · rw [if_pos hxp, if_pos hxp, hxp]
      rfl
    · rw [if_neg hxp, if_neg hxp]
  · refine (writeNode h hid (.unlinked now)).bind ?_
    rintro _ w₁ ⟨h₁, _⟩
    refine (removeLink h₁ hid).mono ?_
    intro _ w₂ h₂
    refine h₂.congr ?_ ?_
    · intro x
      rw [Function.update_apply]
      split
      · next hx => rw [hx]
      · rfl
    · intro x _
      rw [Function.update_apply]
      simp only [if_neg hkind]
      by_cases hxe : x = e.id
      · rw [if_pos hxe, if_pos hxe, hxe]
        rfl
      · rw [if_neg hxe, if_neg hxe]

/-- What `insert` replaces in a directory. -/
lemma insertEntry_resp {d d' : NodeData} {name : Name} {e : DirEntry} {f : Name → Option DirEntry}
    {r : Fallible (Option DirEntry)} (hd : d.shape.entries = some f)
    (h : d.update (.insertEntry name e) = some (r, d')) : r = .ok (f name) := by
  unfold NodeData.shape at hd
  dsimp only at hd
  split at hd
  · next entries hc =>
    obtain rfl := Option.some.inj hd
    unfold NodeData.update at h
    dsimp only at h
    rw [hc] at h
    obtain ⟨rfl, _⟩ := Prod.mk.inj (Option.some.inj h)
    rfl
  · cases hd

/-- A name moves that may. -/
lemma renameEntry (h : Represents w T) {d d' : Dentry} (hp : 0 < T.links d.parent)
    (hp' : 0 < T.links d'.parent) (hdir : T.kind d.parent = .directory)
    (hdir' : T.kind d'.parent = .directory) {id : NodeId} (hfind : T.find d = some id)
    (hne : d ≠ d') (hrep : ∀ i, T.find d' = some i → T.checkReplaced i (T.kind id) = .ok ()) :
    Does uid gid made n w (renameEntry d.parent d.name d'.parent d'.name ⟨id, T.kind id⟩)
      fun r w' => r = .ok () ∧ Represents w' (T.move d d' id) := by
  have hwf : (T.move d d' id).WF := by
    refine h.wf.move hfind hne hdir' hp' (fun i hi => (Tree.of_checkReplaced (hrep i hi)).2) ?_
    intro hself
    rcases (Tree.of_checkReplaced (hrep _ hself)).2 with hkind | hsize
    · exact hkind hdir'
    · have hnone := Tree.size_eq_zero_iff.mp hsize d'.name
      rw [show (⟨d'.parent, d'.name⟩ : Dentry) = d' from rfl, hself] at hnone
      cases hnone
  refine now.bind ?_
  rintro t _ rfl
  refine (writeNode h.holds hp (.removeEntry d.name t)).bind ?_
  rintro _ w₁ ⟨h₁, _⟩
  refine (writeNode h₁ hp' (.insertEntry d'.name ⟨id, T.kind id⟩)).bind ?_
  rintro _ w₂ ⟨h₂, r, c, c', rfl, hc, hupdate⟩
  have hentries : c.shape.entries = some (if d'.parent = d.parent
      then Function.update (T.lookup d'.parent) d.name none else T.lookup d'.parent) := by
    rw [hc, Function.update_apply]
    by_cases hx : d'.parent = d.parent
    · simp only [Update.onShape, Tree.shape, hdir, if_true, Option.map_some, hx]
    · simp only [if_neg hx, Tree.shape, hdir', if_true]
  have hold : (if d'.parent = d.parent then Function.update (T.lookup d'.parent) d.name none
      else T.lookup d'.parent) d'.name = (T.find d').map fun i => ⟨i, T.kind i⟩ := by
    split
    · next hx =>
      have hname : d'.name ≠ d.name := by
        intro hname
        obtain ⟨parent, name⟩ := d
        obtain ⟨parent', name'⟩ := d'
        obtain rfl : parent' = parent := hx
        obtain rfl : name' = name := hname
        exact hne rfl
      rw [Function.update_of_ne hname]
      rfl
    · rfl
  obtain rfl := (insertEntry_resp hentries hupdate).trans (congrArg Except.ok hold)
  refine (writeNode h₂ hp' (.touch t)).bind ?_
  rintro _ w₃ ⟨h₃, _⟩
  have hmoving : w₃.Holds T.links (T.moving d d' id) := by
    refine h₃.congr (fun _ => rfl) fun x _ => ?_
    rw [Tree.moving_eq hdir hdir' t]
    exact (congrFun (Function.update_eq_self _ _) x).symm
  have hkinds : ∀ i, T.find d' = some i → (T.kind i = .directory ↔ T.kind id = .directory) :=
    fun i hi => (Tree.of_checkReplaced (hrep i hi)).1
  have hlast : ∀ {m : NodeId → ℕ} {w₄ : View}, w₄.Holds T.links
      (fun x => { T.moving d d' id x with nlink := m x }) →
      (∀ x, m x = if T.kind id = .directory ∧ d.parent ≠ d'.parent then
          if x = d'.parent then T.nlink x + 1
          else if x = d.parent then T.nlink x - 1
          else T.nlink x
        else T.nlink x) →
      Does uid gid made n w₄ (MemoryFs.dropReplaced d'.parent t
          ((T.find d').map fun i => ⟨i, T.kind i⟩)) fun _ w' =>
        Represents w' (T.move d d' id) := by
    intro m w₄ h₄ hm
    have hmove := Tree.nlink_move hfind hne hdir hdir' hkinds
    have hlinks := Tree.links_move hfind hne
    cases hreplaced : T.find d' with
    | none =>
      refine ret ⟨h₄.congr ?_ ?_, hwf⟩
      · intro x
        have hx := hlinks x
        rw [hreplaced] at hx
        simpa using hx
      · intro x _
        have hx := hmove x
        rw [hreplaced] at hx
        rw [Tree.shape_move, hx, hm]
        simp
    | some i =>
      have hi : 0 < T.links i := Tree.links_pos hreplaced
      refine (dropReplaced h₄ hp' t ⟨i, T.kind i⟩ hi ?_).mono ?_
      · intro hkind
        have hone := h.wf.single hkind
        change T.links i = 1
        omega
      · intro _ w₅ h₅
        refine ⟨h₅.congr ?_ ?_, hwf⟩
        · intro x
          have hx := hlinks x
          rw [hreplaced] at hx
          simp only [Option.some.injEq, @eq_comm _ i x] at hx
          by_cases hxi : x = i
          · rw [if_pos hxi] at hx ⊢
            omega
          · rw [if_neg hxi] at hx ⊢
            omega
        · intro x _
          have hx := hmove x
          rw [hreplaced] at hx
          simp only [Option.some.injEq, exists_eq_left'] at hx
          rw [Tree.shape_move, hx, hm]
  refine ite (fun hc => ?_) fun hc => ?_
  · refine (moveSubdir hmoving hp hp' hc.2.symm id).bind ?_
    intro _ w₄ h₄
    refine (hlast h₄ fun x => ?_).bind ?_
    · rw [if_pos hc]
      rfl
    · intro _ w₅ h₅
      exact ret ⟨rfl, h₅⟩
  · refine (hlast (m := T.nlink) hmoving fun x => ?_).bind ?_
    · rw [if_neg hc]
    · intro _ w₅ h₅
      exact ret ⟨rfl, h₅⟩

/-- `rename` moves a name, or fails and leaves the view alone. -/
lemma rename (h : Represents w T) (d d' : Dentry) (hp : 0 < T.links d.parent)
    (hp' : 0 < T.links d'.parent) :
    Does uid gid made n w (rename d.parent d.name d'.parent d'.name) fun r w' =>
      match T.rename d d' with
      | .error e => r = fail e ∧ w' = w
      | .ok T' => r = .ok () ∧ Represents w' T' := by
  refine (entry h hp d.name).bind ?_
  intro r w' hr
  obtain ⟨rfl, rfl⟩ := hr
  unfold Tree.rename
  cases hentry : T.entry d with
  | error e => exact ret ⟨rfl, rfl⟩
  | ok id =>
    obtain ⟨hdir, hfind⟩ := Tree.WF.of_entry hentry
    refine (kind h (Tree.links_pos hfind)).bind ?_
    intro r w₁ hr
    obtain ⟨rfl, rfl⟩ := hr
    refine (entry h hp' d'.name).bind ?_
    intro r w₂ hr
    obtain ⟨rfl, rfl⟩ := hr
    unfold Tree.entry
    simp only [Except.bind]
    by_cases hdir' : T.kind d'.parent = .directory
    · simp only [hdir', ne_eq, not_true_eq_false, if_false]
      cases hfind' : T.find d' with
      | none =>
        have hne : d ≠ d' := by
          rintro rfl
          rw [hfind] at hfind'
          cases hfind'
        refine renameEntry h hp hp' hdir hdir' hfind hne ?_
        intro i hi
        rw [hfind'] at hi
        cases hi
      | some i =>
        refine ite (fun (hi : i = id) => ?_) fun (hi : ¬i = id) => ?_
        · simp only [if_pos hi]
          exact ret ⟨rfl, h⟩
        · simp only [if_neg hi]
          refine (checkReplaced h (Tree.links_pos hfind') (T.kind id)).bind ?_
          intro r w₃ hr
          obtain ⟨rfl, rfl⟩ := hr
          cases hrep : T.checkReplaced i (T.kind id) with
          | error e => exact ret ⟨rfl, rfl⟩
          | ok _ =>
            refine renameEntry h hp hp' hdir hdir' hfind ?_ ?_
            · rintro rfl
              rw [hfind] at hfind'
              exact hi (Option.some.inj hfind').symm
            · intro j hj
              rw [hfind'] at hj
              obtain rfl := Option.some.inj hj
              exact hrep
    · simp only [hdir', ne_eq, not_false_eq_true, if_true]
      exact ret ⟨rfl, rfl⟩

end Does

end MemoryFs

end TypedFuse
