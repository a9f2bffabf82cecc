import TypedFuse.Memory.Rename

/-!
# The filesystem in memory is a tree

Requests that change names are served one at a time, and the nodes that they name have links: the
kernel locks the directories, and looks up no name in a directory that was removed.  All other
requests run at any time, between any two steps of theirs.  Then the answers are those of a tree
that the requests change one after the other, and the cells and the link counts of the runtime show
this tree whenever no such request is under way.
-/

namespace TypedFuse

open Conc Conc.Service NodeTable TypedFuse.Runtime

namespace MemoryFs

variable {uid gid : ℕ} {made : SystemTime} {n : ℕ} {w : View} {T : Tree} {α β : Type}

/-- A node that `mknod` makes is no directory. -/
lemma shape_contentOf {mode : ℕ} {k : FileKind} {content : Content}
    (h : contentOf mode = some (k, content)) (perm rdev : ℕ) (t : SystemTime) :
    (NodeData.new k content perm uid gid rdev t).shape = Tree.freshShape k := by
  unfold contentOf at h
  split at h <;> cases h <;> rfl

/-- Whatever the runtime does for a request from the view `w`, it ends in `Q`. -/
abbrev Serving (uid gid : ℕ) (made : SystemTime) (n : ℕ) (w : View) (p : RtProg sig α)
    (Q : α → View → Prop) : Prop :=
  (exclusion uid gid made).Acts Sane n w p Q

namespace Serving

/-- A section of the runtime. -/
lemma perform {i : RtInstr sig} {Q : i.Resp → View → Prop}
    (h : ∀ (s s' : RtState sig) ch r, view s = w → s.exec n i ch = some (r, s') →
      Q r (view s')) :
    Serving uid gid made n w (Runtime.sect i) Q := by
  intro s ch r s' _ hw he
  exact h s s' ch r hw he

/-- The sections of the runtime leave the view alone. -/
lemma sect {i : RtInstr sig} (hi : ∀ j, i ≠ .fs j) :
    Serving uid gid made n w (Runtime.sect i) fun _ w' => w' = w := by
  refine perform ?_
  rintro s s' ch r rfl he
  exact view_neutral (neutral_of_runtime hi) he

/-- Leasing a node that has links. -/
lemma lease {id c : ℕ} (hc : w.cellOf id = some c) :
    Serving uid gid made n w (Runtime.sect (.lease id)) fun r w' =>
      w' = w ∧ ∃ ref, r = some ref ∧ ref.record.payload = c := by
  refine perform ?_
  rintro s s' ch r rfl he
  refine ⟨view_neutral (neutral_of_runtime (by simp)) he, ?_⟩
  obtain ⟨sl, hsl, hpayload, _⟩ := Does.slot_of_cellOf hc
  obtain ⟨⟨o, t'⟩, hget, heq⟩ := Option.map_eq_some_iff.mp he
  obtain ⟨rfl, _⟩ := Prod.mk.inj heq
  rcases Leased.get_cases hget with ⟨_, hdead, _⟩ | ⟨sl', rfl, hsl', _⟩
  · rw [hsl] at hdead
    cases hdead
  · obtain rfl := Option.some.inj (hsl.symm.trans hsl')
    exact ⟨_, rfl, hpayload⟩

/-- Counting a lookup of a node that has links. -/
lemma grant {id c : ℕ} (hc : w.cellOf id = some c) :
    Serving uid gid made n w (Runtime.sect (.grant id)) fun r w' =>
      w' = w ∧ ∃ gen, r = some gen := by
  refine perform ?_
  rintro s s' ch r rfl he
  refine ⟨view_neutral (neutral_of_runtime (by simp)) he, ?_⟩
  obtain ⟨sl, hsl, _⟩ := Does.slot_of_cellOf hc
  obtain ⟨⟨o, t'⟩, hadd, heq⟩ := Option.map_eq_some_iff.mp he
  obtain ⟨rfl, _⟩ := Prod.mk.inj heq
  obtain ⟨⟨o', t''⟩, hinc, heq'⟩ := Option.map_eq_some_iff.mp hadd
  obtain ⟨rfl, _⟩ := Prod.mk.inj heq'
  rcases incr_cases hinc with ⟨_, hdead, _⟩ | ⟨sl', rfl, _⟩
  · rw [hsl] at hdead
    cases hdead
  · exact ⟨sl'.generation, rfl⟩

/-- Counting an open of a node that has links. -/
lemma addOpen {id c : ℕ} (hc : w.cellOf id = some c) :
    Serving uid gid made n w (Runtime.sect (.addOpen id)) fun r w' => w' = w ∧ r = true := by
  refine perform ?_
  rintro s s' ch r rfl he
  refine ⟨view_neutral (neutral_of_runtime (by simp)) he, ?_⟩
  obtain ⟨sl, hsl, _⟩ := Does.slot_of_cellOf hc
  obtain ⟨⟨o, t'⟩, hadd, heq⟩ := Option.map_eq_some_iff.mp he
  obtain ⟨rfl, _⟩ := Prod.mk.inj heq
  obtain ⟨⟨o', t''⟩, hinc, heq'⟩ := Option.map_eq_some_iff.mp hadd
  obtain ⟨rfl, _⟩ := Prod.mk.inj heq'
  rcases incr_cases hinc with ⟨_, hdead, _⟩ | ⟨sl', rfl, _⟩
  · rw [hsl] at hdead
    cases hdead
  · rfl

/-- `getattr` on a cell. -/
lemma getattr {c : ℕ} {v : Shape} (hc : w.cell c = some v) :
    Does uid gid made n w (getattr c) fun r w' =>
      w' = w ∧ ∃ d : NodeData, r = .ok d.attr ∧ d.shape = v := by
  refine Does.bind (Does.readCell hc) ?_
  rintro d _ ⟨rfl, hd⟩
  exact Does.ret ⟨rfl, d, rfl, hd⟩

/-- `entry_for` shows a node of the tree. -/
lemma entryFor (h : Represents w T) {id : NodeId} (hid : 0 < T.links id) (caller : Caller) :
    Serving uid gid made n w (Runtime.entryFor (fs uid gid made) id caller) fun r w' =>
      w' = w ∧ ∃ e, r = .ok e ∧ T.Shows id e := by
  obtain ⟨c, hc, hshow⟩ := h.holds.shown hid
  refine Exclusion.Acts.bind (sect (i := .denote id) (by simp)) ?_
  rintro denoted _ rfl
  refine Exclusion.Acts.bind (lease hc) ?_
  rintro _ _ ⟨rfl, ref, rfl, rfl⟩
  refine Exclusion.Acts.bind (getattr hshow) ?_
  rintro _ _ ⟨rfl, d, rfl, hd⟩
  refine Exclusion.Acts.bind (grant hc) ?_
  rintro _ _ ⟨rfl, gen, rfl⟩
  refine Exclusion.Acts.bind (sect (i := .dropNode ref) (by simp)) ?_
  rintro _ _ rfl
  exact Exclusion.Acts.ret ⟨rfl, _, rfl, rfl, congrArg Shape.kind hd, congrArg Shape.nlink hd⟩

/-! ### Requests that are answered with an entry -/

/-- A callback that fails. -/
lemma makeOp_fails (op : MakeOp) {e : Errno} (caller : Caller)
    (hp : Does uid gid made n w (makeOp uid gid op) fun r w' => r = fail e ∧ w' = w) :
    Serving uid gid made n w (serve (fs uid gid made) (.makeOp op caller)) fun a w' =>
      a = fail e ∧ w' = w := by
  refine Exclusion.Acts.bind (Exclusion.Acts.bind hp (R := fun r w' => r = fail e ∧ w' = w) ?_) ?_
  · rintro _ _ ⟨rfl, rfl⟩
    exact Exclusion.Acts.ret ⟨rfl, rfl⟩
  · rintro _ _ ⟨rfl, rfl⟩
    exact Exclusion.Acts.ret ⟨rfl, rfl⟩

/-- A callback that returns a node with links. -/
lemma makeOp_enters (op : MakeOp) {G : NodeId → Tree → Prop} (caller : Caller)
    (hp : Does uid gid made n w (makeOp uid gid op) fun r w' =>
      ∃ id T', r = .ok id ∧ 0 < T'.links id ∧ Represents w' T' ∧ G id T') :
    Serving uid gid made n w (serve (fs uid gid made) (.makeOp op caller)) fun a w' =>
      ∃ id T' e, a = .ok (.entry e) ∧ T'.Shows id e ∧ Represents w' T' ∧ G id T' := by
  refine Exclusion.Acts.bind (Exclusion.Acts.bind hp (R := fun r w' =>
    ∃ id T' e, r = .ok e ∧ T'.Shows id e ∧ Represents w' T' ∧ G id T') ?_) ?_
  · rintro _ w' ⟨id, T', rfl, hid, hT', hG⟩
    refine (entryFor hT' hid caller).mono ?_
    rintro _ _ ⟨rfl, e, rfl, he⟩
    exact ⟨id, T', e, rfl, he, hT', hG⟩
  · rintro _ w' ⟨id, T', e, rfl, he, hT', hG⟩
    exact Exclusion.Acts.ret ⟨id, T', e, rfl, he, hT', hG⟩

/-- A callback that makes a node. -/
lemma makeOp_makes (h : Represents w T) (op : MakeOp) {d : Dentry} {k : FileKind} (caller : Caller)
    (hp : Does uid gid made n w (makeOp uid gid op) fun r w' =>
      match T.checkNew d with
      | .error e => r = fail e ∧ w' = w
      | .ok _ => ∃ id, T.links id = 0 ∧ r = .ok id ∧ Represents w' (T.make d k id)) :
    Serving uid gid made n w (serve (fs uid gid made) (.makeOp op caller)) fun a w' =>
      ∃ T', T.Makes d k (fun a e => a = .ok (.entry e)) a T' ∧ Represents w' T' := by
  unfold Tree.Makes
  cases hnew : T.checkNew d with
  | error e =>
    rw [hnew] at hp
    refine (makeOp_fails op caller hp).mono ?_
    rintro _ _ ⟨rfl, rfl⟩
    exact ⟨T, ⟨rfl, rfl⟩, h⟩
  | ok _ =>
    rw [hnew] at hp
    refine (makeOp_enters op (G := fun id T' => T.links id = 0 ∧ T' = T.make d k id) caller
      (hp.mono ?_)).mono ?_
    · rintro _ w' ⟨id, hid, rfl, hT'⟩
      exact ⟨id, _, rfl, Tree.links_make_pos d k id, hT', hid, rfl⟩
    · rintro _ w' ⟨id, T', e, rfl, he, hT', hid, rfl⟩
      exact ⟨_, ⟨id, e, hid, rfl, rfl, he⟩, hT'⟩

/-- `link`. -/
lemma link (h : Represents w T) {id newparent : NodeId} (hid : 0 < T.links id)
    (hp : 0 < T.links newparent) (newname : Name) (caller : Caller) :
    Serving uid gid made n w
      (serve (fs uid gid made) (.makeOp (.link id newparent newname) caller)) fun a w' =>
      ∃ T', T.Step (.makeOp (.link id newparent newname) caller) a T' ∧ Represents w' T' := by
  have hlink : Does uid gid made n w (MemoryFs.link id newparent newname) _ :=
    Does.link h hid hp newname
  unfold Tree.Step Tree.Settles
  dsimp only
  cases hcase : T.link id ⟨newparent, newname⟩ with
  | error e =>
    rw [hcase] at hlink
    refine (makeOp_fails (.link id newparent newname) caller hlink).mono ?_
    rintro _ _ ⟨rfl, rfl⟩
    exact ⟨T, ⟨rfl, rfl⟩, h⟩
  | ok T₁ =>
    rw [hcase] at hlink
    have hpos : 0 < T₁.links id := Tree.links_pos (Tree.find_of_link hcase)
    refine (makeOp_enters (.link id newparent newname)
      (G := fun i T' => i = id ∧ T' = T₁) caller (hlink.mono ?_)).mono ?_
    · rintro _ w' ⟨rfl, hT₁⟩
      exact ⟨id, T₁, rfl, hpos, hT₁, rfl, rfl⟩
    · rintro _ w' ⟨_, _, e, rfl, he, hT₁, rfl, rfl⟩
      exact ⟨_, ⟨rfl, e, rfl, he⟩, hT₁⟩

/-- `create`. -/
lemma create (h : Represents w T) {parent : NodeId} (hp : 0 < T.links parent) (name : Name)
    (mode umask : ℕ) (flags : ℤ) (caller : Caller) :
    Serving uid gid made n w
      (serve (fs uid gid made) (.create parent name mode umask flags caller)) fun a w' =>
      ∃ T', T.Step (.create parent name mode umask flags caller) a T' ∧ Represents w' T' := by
  have hchild : Does uid gid made n w
      (MemoryFs.createChild uid gid parent name .regularFile (.file []) (mode &&& 0o7777) 0) _ :=
    Does.createChild h hp name (fun _ _ _ => rfl) _ _
  change Serving uid gid made n w _ fun a w' =>
    ∃ T', T.Makes ⟨parent, name⟩ .regularFile
      (fun a e => ∃ fh hints, a = .ok (.created e fh hints)) a T' ∧ Represents w' T'
  unfold Tree.Makes
  cases hnew : T.checkNew ⟨parent, name⟩ with
  | error e =>
    rw [hnew] at hchild
    refine Exclusion.Acts.bind (Exclusion.Acts.bind (Does.bind hchild
      (R := fun r w' => r = fail e ∧ w' = w) ?_) (R := fun r w' => r = fail e ∧ w' = w) ?_) ?_
    · rintro _ _ ⟨rfl, rfl⟩
      exact Does.ret ⟨rfl, rfl⟩
    · rintro _ _ ⟨rfl, rfl⟩
      exact Exclusion.Acts.ret ⟨rfl, rfl⟩
    · rintro _ _ ⟨rfl, rfl⟩
      exact Exclusion.Acts.ret ⟨T, ⟨rfl, rfl⟩, h⟩
  | ok _ =>
    rw [hnew] at hchild
    refine Exclusion.Acts.bind (Exclusion.Acts.bind (Does.bind hchild
      (R := fun r w' => ∃ id, T.links id = 0 ∧ r = .ok (id, ⟨(), {}⟩) ∧
        Represents w' (T.make ⟨parent, name⟩ .regularFile id)) ?_)
      (R := fun r w' => ∃ id e fh, T.links id = 0 ∧ r = .ok (e, fh, {}) ∧
        (T.make ⟨parent, name⟩ .regularFile id).Shows id e ∧
        Represents w' (T.make ⟨parent, name⟩ .regularFile id)) ?_) ?_
    · rintro _ w' ⟨id, hid, rfl, hT'⟩
      exact Does.ret ⟨id, hid, rfl, hT'⟩
    · rintro _ w' ⟨id, hid, rfl, hT'⟩
      have hpos := Tree.links_make_pos (T := T) ⟨parent, name⟩ .regularFile id
      obtain ⟨c, hc, _⟩ := hT'.holds.shown hpos
      refine Exclusion.Acts.bind (entryFor hT' hpos caller) ?_
      rintro _ _ ⟨rfl, e, rfl, he⟩
      refine Exclusion.Acts.bind (addOpen hc) ?_
      rintro _ _ ⟨rfl, rfl⟩
      refine Exclusion.Acts.bind (sect (i := .addHandle .file id ()) (by simp)) ?_
      rintro fh _ rfl
      exact Exclusion.Acts.ret ⟨id, e, fh, hid, rfl, he, hT'⟩
    · rintro _ w' ⟨id, e, fh, hid, rfl, he, hT'⟩
      exact Exclusion.Acts.ret ⟨_, ⟨id, e, hid, rfl, ⟨fh, {}, rfl⟩, he⟩, hT'⟩

/-- A request that takes names away or moves them. -/
lemma treeOp (h : Represents w T) {op : TreeOp} {r : Except Errno Tree} (caller : Caller)
    {p : Callback (Fallible Unit)}
    (hop : MemoryFs.treeOp op = p >>= fun result => .ret (result.map fun _ => .unit))
    (hp : Does uid gid made n w p fun a w' =>
      match r with
      | .error e => a = fail e ∧ w' = w
      | .ok T' => a = .ok () ∧ Represents w' T') :
    Serving uid gid made n w (serve (fs uid gid made) (.treeOp op caller)) fun a w' =>
      ∃ T', T.Settles r (fun a _ => a = .ok (.value .unit)) a T' ∧ Represents w' T' := by
  have hcall : Does uid gid made n w (MemoryFs.treeOp op) fun a w' =>
      ∃ T', T.Settles r (fun a _ => a = .ok (.value .unit)) (a.map .value) T' ∧
        Represents w' T' := by
    rw [hop]
    refine Does.bind hp ?_
    intro a w' ha
    unfold Tree.Settles
    cases r with
    | error e =>
      obtain ⟨rfl, rfl⟩ := ha
      exact Does.ret ⟨T, ⟨rfl, rfl⟩, h⟩
    | ok T₁ =>
      obtain ⟨rfl, hT₁⟩ := ha
      exact Does.ret ⟨T₁, ⟨rfl, rfl⟩, hT₁⟩
  refine Exclusion.Acts.bind hcall ?_
  intro a w' ha
  exact Exclusion.Acts.ret ha

end Serving

/-- A request that changes names does to the tree what it is meant to do. -/
theorem serving_writer {req : Request} (hw : changesNames req = true)
    (hready : ∀ id ∈ Tree.named req, 0 < w.links id) (h : Represents w T) :
    Serving uid gid made n w (serve (fs uid gid made) req) fun a w' =>
      ∃ T', T.Step req a T' ∧ Represents w' T' := by
  have hlive : ∀ id ∈ Tree.named req, 0 < T.links id := by
    intro id hid
    rw [← h.holds.links]
    exact hready id hid
  cases req with
  | makeOp op caller =>
    cases op with
    | mknod parent name mode rdev umask =>
      have hp := hlive parent (List.mem_singleton.mpr rfl)
      cases hc : contentOf mode with
      | none =>
        have hfail : Does uid gid made n w (makeOp uid gid (.mknod parent name mode rdev umask))
            fun r w' => r = fail .EINVAL ∧ w' = w := by
          change Does uid gid made n w (mknod uid gid parent name mode rdev) _
          unfold mknod
          rw [hc]
          exact Does.ret ⟨rfl, rfl⟩
        refine (Serving.makeOp_fails _ caller hfail).mono ?_
        rintro _ _ ⟨rfl, rfl⟩
        unfold Tree.Step
        dsimp only
        rw [hc]
        exact ⟨T, ⟨rfl, rfl⟩, h⟩
      | some kc =>
        obtain ⟨k, content⟩ := kc
        have hmake := Serving.makeOp_makes (d := ⟨parent, name⟩) (k := k) h
          (.mknod parent name mode rdev umask) caller (by
            change Does uid gid made n w (mknod uid gid parent name mode rdev) _
            unfold mknod
            rw [hc]
            exact Does.createChild h hp name (shape_contentOf hc) _ _)
        refine hmake.mono ?_
        intro a w' ha
        unfold Tree.Step
        dsimp only
        rw [hc]
        exact ha
    | mkdir parent name mode umask =>
      exact Serving.makeOp_makes h _ caller
        (Does.createChild h (hlive parent (List.mem_singleton.mpr rfl)) name (fun _ _ _ => rfl) _ _)
    | symlink parent name target =>
      exact Serving.makeOp_makes h _ caller
        (Does.createChild h (hlive parent (List.mem_singleton.mpr rfl)) name (fun _ _ _ => rfl) _ _)
    | link id newparent newname =>
      have hid := hlive id (List.mem_cons_self ..)
      have hp := hlive newparent (List.mem_cons_of_mem _ (List.mem_singleton.mpr rfl))
      exact Serving.link h hid hp newname caller
  | treeOp op caller =>
    cases op with
    | unlink parent name =>
      exact Serving.treeOp h caller rfl
        (Does.unlink h (hlive parent (List.mem_singleton.mpr rfl)) name)
    | rmdir parent name =>
      exact Serving.treeOp h caller rfl
        (Does.rmdir h (hlive parent (List.mem_singleton.mpr rfl)) name)
    | rename parent name newparent newname flags =>
      exact Serving.treeOp h caller rfl (Does.rename h ⟨parent, name⟩
        ⟨newparent, newname⟩ (hlive parent (List.mem_cons_self ..))
        (hlive newparent (List.mem_cons_of_mem _ (List.mem_singleton.mpr rfl))))
    | copyFileRange => cases hw
  | create parent name mode umask flags caller =>
    exact Serving.create h (hlive parent (List.mem_singleton.mpr rfl)) name mode umask flags caller
  | _ => cases hw

/-! ## The other requests -/

/-- Harmless instructions leave the view alone. -/
lemma tame_neutral : Tame Neutral where
  runtime := neutral_of_runtime
  get := fun _ => trivial
  dropRef := fun _ => trivial
  now := trivial
  read := fun _ => trivial
  setxattr := fun _ _ _ _ _ => trivial
  removexattr := fun _ _ _ => trivial

/-- A request that changes no names leaves the view alone. -/
lemma performs_reader {req : Request} (hw : changesNames req = false) :
    (serve (fs uid gid made) req).Performs Neutral := by
  refine performs_serve tame_neutral ?_ ?_ ?_
  · exact fun _ _ _ _ _ _ _ => trivial
  · exact fun _ _ _ _ _ _ _ _ => trivial
  · intro h
    exact absurd (hw.symm.trans h) Bool.false_ne_true

/-- Requests that change names do to the tree what they are meant to do, and the others leave it
alone. -/
lemma sound : (exclusion uid gid made).Sound Sane Neutral Represents
    (fun req T a T' => T.Step req a T') (start (fs uid gid made)) where
  facts := fun hr => wf_of_run hr
  issue := by
    intro n req s s' hs
    obtain rfl := Option.some.inj hs
    cases req <;> rfl
  answer := fun _ _ _ _ => rfl
  keeps := fun hi _ he => view_neutral hi he
  reader := performs_reader
  writer := fun hw hready h => serving_writer hw hready h

/-- In a table with a single slot, which has a link, only its node has a cell. -/
lemma linkedCell_single {t : NodeTable sig.Node} {id : NodeId} {sl : Slot sig.Node}
    (hslot : ∀ i, t.slot i = if i = id then some sl else none) (hlinks : sl.links = 1)
    (i : NodeId) :
    t.count .links i = (if i = id then 1 else 0) ∧
      linkedCell t i = if i = id then some sl.record.payload else none := by
  have hcount : t.count .links i = if i = id then 1 else 0 := by
    unfold count
    rw [hslot]
    by_cases hi : i = id
    · rw [if_pos hi, if_pos hi]
      exact hlinks
    · rw [if_neg hi, if_neg hi]
  refine ⟨hcount, ?_⟩
  unfold linkedCell
  rw [hcount]
  by_cases hi : i = id
  · rw [if_pos hi, if_pos hi, if_pos Nat.one_pos, cellIn_of_slot ((hslot i).trans (if_pos hi))]
  · rw [if_neg hi, if_neg hi, if_neg (lt_irrefl 0)]

/-- At first the tree is empty. -/
lemma represents_new : Represents (view (new (fs uid gid made))) Tree.empty := by
  have htable := linkedCell_single (t := NodeTable.new.set NodeId.ROOT (rootSlot (fs uid gid made)))
    (fun i => slot_set (NodeTable.new : NodeTable sig.Node) NodeId.ROOT i _) rfl
  have hlinks : ∀ i, Tree.empty.links i = if i = NodeId.ROOT then 1 else 0 := by
    intro i
    unfold Tree.links
    rw [Tree.empty, BTreeMap.countWhere_empty, Nat.zero_add]
  have hcell : ∀ {i c}, (view (new (fs uid gid made))).cellOf i = some c →
      i = NodeId.ROOT ∧ c = 0 := by
    intro i c hc
    have hc' := (htable i).2.symm.trans hc
    split at hc'
    · next hi => exact ⟨hi, (Option.some.inj hc').symm⟩
    · cases hc'
  have hshapes : ∀ c, shapes (new (fs uid gid made)).fs c =
      if c = 0 then some (Tree.freshShape .directory) else none := by
    intro c
    have hinsert := shapes_insert ⟨(∅ : BTreeMap ℕ NodeData), 1⟩ 0 (rootData uid gid made) 1
    refine (congrFun hinsert c).trans ?_
    rw [Function.update_apply]
    split_ifs <;> rfl
  refine ⟨⟨?_, ?_, ?_, ?_, ?_⟩, Tree.WF.empty⟩
  · intro i
    exact (htable i).1.trans (hlinks i).symm
  · intro i hi
    rw [hlinks] at hi
    split at hi
    · next hroot => exact ⟨0, (htable i).2.trans (if_pos hroot), hshapes 0⟩
    · exact absurd hi (lt_irrefl 0)
  · intro i c hc
    rw [hlinks, if_pos (hcell hc).1]
    exact Nat.one_pos
  · intro i j c hi hj
    exact (hcell hi).1.trans (hcell hj).1.symm
  · intro c v hc
    have hc' := (hshapes c).symm.trans hc
    split at hc'
    · next hzero =>
      rw [hzero]
      exact Nat.one_pos
    · cases hc'

end MemoryFs

end TypedFuse
