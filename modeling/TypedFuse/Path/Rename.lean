import TypedFuse.Path.Effects
import TypedFuse.Path.PathSample
import TypedFuse.Path.Walk

/-!
# What `rename` does

After a successful `rename` of the inner filesystem the adapter moves one binding, unless it does
not know the source or both names are bound to one node.  The first section says what that does to
names and links, the second when a rename unbinds what it replaces, and the last follows the move
through all walks and paths.
-/

namespace TypedFuse

open Conc Conc.Service NodeTable Relation TypedFuse.Runtime

/-! ## The moved binding -/

namespace Namespace

variable {ns : Namespace} {old new d : Dentry} {source i : NodeId}

/-- Unbind the new name and the old one and bind the new one to the source. -/
def move (ns : Namespace) (old new : Dentry) (source : NodeId) : Namespace :=
  ((ns.remove new).2.remove old).2.addAlias source new

lemma find_move : (ns.move old new source).find d =
    if d = new then some source else if d = old then none else ns.find d := by
  unfold move
  rw [find_addAlias]
  split
  · rfl
  · next hnew =>
    rw [find_remove, find_remove, if_neg hnew]

/-- The source is bound to its old name until that is removed. -/
lemma find_remove_ne (h : old ≠ new) : (ns.remove new).2.find old = ns.find old := by
  rw [find_remove, if_neg h]

lemma names_move_source (hne : old ≠ new) (hold : ns.find old = some source)
    (hnew : ns.find new ≠ some source) :
    (ns.move old new source).names source = insert new ((ns.names source).erase old) := by
  unfold move
  rw [names_addAlias, if_pos rfl, names_remove ((find_remove_ne hne).trans hold), if_pos rfl]
  cases htarget : ns.find new with
  | none => rw [remove_of_unbound htarget]
  | some target =>
    rw [names_remove htarget, if_neg]
    rintro rfl
    exact hnew htarget

lemma names_move_other (hne : old ≠ new) (hold : ns.find old = some source) (hi : i ≠ source) :
    (ns.move old new source).names i =
      if ns.find new = some i then (ns.names i).erase new else ns.names i := by
  unfold move
  rw [names_addAlias, if_neg hi, names_remove ((find_remove_ne hne).trans hold), if_neg hi]
  cases htarget : ns.find new with
  | none =>
    rw [remove_of_unbound htarget]
    exact (if_neg (by simp)).symm
  | some target =>
    rw [names_remove htarget]
    split
    · next heq =>
      subst heq
      exact (if_pos rfl).symm
    · next hne' =>
      rw [if_neg]
      intro heq
      exact hne' (Option.some.inj heq).symm

/-- The names of a node that a move leaves it: the source has the new name for the old one, and what
was bound to the new name has lost it. -/
def namesLeft (ns : Namespace) (old new : Dentry) (source i : NodeId) : Finset Dentry :=
  if i = source then insert new ((ns.names i).erase old)
  else if ns.find new = some i then (ns.names i).erase new
  else ns.names i

lemma names_move (hne : old ≠ new) (hold : ns.find old = some source)
    (hnew : ns.find new ≠ some source) :
    (ns.move old new source).names i = ns.namesLeft old new source i := by
  unfold namesLeft
  split
  · next hi =>
    rw [hi, names_move_source hne hold hnew]
  · next hi => rw [names_move_other hne hold hi]

/-- The name by which a node is addressed after a move. -/
def firstLeft (ns : Namespace) (old new : Dentry) (source i : NodeId) : Option Dentry :=
  Dentry.firstOf (ns.namesLeft old new source i)

/-- After a move `path_for` answers with what the names that are left spell. -/
lemma pathFor_move (hne : old ≠ new) (hold : ns.find old = some source)
    (hnew : ns.find new ≠ some source) {p : Path} :
    (ns.move old new source).pathFor i = some (some p) ↔
      Spells (ns.firstLeft old new source) i p := by
  have hfirst : (ns.move old new source).firstAlias = ns.firstLeft old new source := by
    funext j
    exact congrArg Dentry.firstOf (names_move hne hold hnew)
  rw [pathFor_eq_some_iff, PathOf, hfirst]

end Namespace

variable {P : PathFilesystem} {n : ℕ}

/-- What the end of `rename` does to the names and the inode table. -/
inductive Moved (ns : Namespace) (t : PathTable P) (old new : Dentry) :
    Namespace → PathTable P → Prop where
  /-- The adapter does not know the source. -/
  | unknown (h : ns.find old = none) : Moved ns t old new ns t
  /-- Both names are bound to one node. -/
  | same {source : NodeId} (h : ns.find old = some source) (h' : ns.find new = some source) :
      Moved ns t old new ns t
  /-- The replaced node loses a link and the source gets the new name for the old one. -/
  | moved {source : NodeId} (h : ns.find old = some source) (h' : ns.find new ≠ some source) :
      Moved ns t old new (ns.move old new source)
        (((ns.find new).elim t t.removeLink).reparent source new.parent)

namespace Effect

variable {ns : Namespace} {t : PathTable P}

/-- The end of `rename`. -/
lemma moveDentry (old new : Dentry) :
    Effect P n ns t (PathNodeFs.moveDentry old new) fun _ => Moved ns t old new := by
  refine (find old).bind ?_
  rintro r _ _ ⟨hold, rfl, rfl⟩
  cases r with
  | none => exact ret (.unknown hold.symm)
  | some source =>
    refine (find new).bind ?_
    rintro target _ _ ⟨htarget, rfl, rfl⟩
    refine ite (fun hsame => ret (.same hold.symm (htarget.symm.trans hsame))) fun hne => ?_
    refine (remove new).bind ?_
    rintro replaced _ _ ⟨rfl, rfl, rfl⟩
    refine (removeLinkOf _).bind ?_
    rintro _ _ _ ⟨rfl, rfl⟩
    refine (remove old).bind ?_
    rintro _ _ _ ⟨_, rfl, rfl⟩
    refine (addAlias source new).bind ?_
    rintro _ _ _ ⟨rfl, rfl⟩
    refine (reparent source new.parent).mono ?_
    rintro _ _ _ ⟨rfl, rfl⟩
    exact .moved hold.symm fun h => hne (htarget.trans h)

/-- `rename`: the directories have paths, and a success moves the binding. -/
lemma rename (parent : NodeId) (name : Name) (newparent : NodeId) (newname : Name) (flags : ℕ)
    (caller : Caller) :
    Effect P n ns t (PathNodeFs.rename parent name newparent newname flags caller)
      fun r ns' t' => ∀ v, r = .ok v →
        (∃ p, ns.pathFor parent = some (some p)) ∧
        (∃ p, ns.pathFor newparent = some (some p)) ∧
          Moved ns t ⟨parent, name⟩ ⟨newparent, newname⟩ ns' t' := by
  refine ite (fun _ => ret fun v h => nomatch h) fun _ => writing ?_
  refine withPathOf (fun v h => nomatch h) fun p hp => ?_
  refine withPathOf (fun v h => nomatch h) fun p' hp' => ?_
  refine innerThen (inner _) (fun e v h => nomatch h) fun _ => ?_
  refine nsLock.bind ?_
  rintro _ _ _ ⟨rfl, rfl⟩
  refine (moveDentry _ _).bind ?_
  intro _ ns' t' hmoved
  refine nsUnlock.bind ?_
  rintro _ _ _ ⟨rfl, rfl⟩
  exact ret fun v _ => ⟨⟨p, hp⟩, ⟨p', hp'⟩, hmoved⟩

/-- `lookup` answers with the node that a bound name is bound to. -/
lemma lookup_bound {d : Dentry} {id : NodeId} (hd : ns.find d = some id) (caller : Caller) :
    Effect P n ns t (PathNodeFs.lookup d.parent d.name caller)
      fun r _ _ => ∀ i, r = .ok (some i) → i = id := by
  refine reading (withPathOf (fun i h => nomatch h) fun p _ => ?_)
  refine innerThen (inner _) (fun e i h => nomatch h) fun attr => ?_
  cases attr with
  | none => exact ret fun i h => nomatch h
  | some attr =>
    refine (addNode _ _).bind ?_
    rintro i ns' t' ⟨new, h⟩
    refine ret ?_
    intro j hj
    obtain rfl := Option.some.inj (Except.ok.inj hj)
    cases h with
    | found h => exact Option.some.inj (h.symm.trans hd)
    | made h =>
      rw [hd] at h
      cases h

end Effect

/-- What a callback ensures of the names and the inode table holds of everything it does alone. -/
lemma Effect.of_alone {α : Type} {s s' : RtState (PathNodeFs.sig P)}
    {p : PathNodeFs.Callback P α} {Q : α → Namespace → PathTable P → Prop}
    (h : Effect P n s.fs.ns s.table p Q) {a : α}
    (ha : Alone (service (pathNodeFs P)) n (call (σ := PathNodeFs.sig P) p) s a s') :
    Q a s'.fs.ns s'.table :=
  alone_iff_wp.mp (h s rfl rfl) a s' ha

/-! ## What a rename replaces -/

/-- After a rename the old name is free, the new name is bound to the source if to anything, and a
node that the new name was bound to has lost this name and a link, does not have the path of the
destination and is not what a lookup of it finds. -/
structure RenameUnbinds (s s' : RtState (PathNodeFs.sig P)) (old new : Dentry) : Prop where
  old_unbound : s'.fs.ns.find old = none
  new_source : ∀ id, s'.fs.ns.find new = some id → s.fs.ns.find old = some id
  lost : ∀ id, s.fs.ns.find new = some id →
    new ∉ s'.fs.ns.names id ∧ s'.table.count .links id + 1 = s.table.count .links id
  path : ∀ id, s.fs.ns.find new = some id →
    ∀ p, s.fs.ns.pathFor new.parent = some (some p) →
    s'.fs.ns.pathFor id ≠ some (some (p.push new.name))
  lookup : ∀ id, s.fs.ns.find new = some id → ∀ m caller i s'',
    Alone (service (pathNodeFs P)) m
      (call (σ := PathNodeFs.sig P) (PathNodeFs.lookup new.parent new.name caller)) s'
      (.ok (some i)) s'' → i ≠ id

/-- The links of a node after a rename. -/
lemma count_links_moved {t : PathTable P} {target : Option NodeId} {source parent i : NodeId} :
    ((target.elim t t.removeLink).reparent source parent).count .links i =
      t.count .links i - if target = some i then 1 else 0 := by
  rw [count_reparent]
  cases target with
  | none => rfl
  | some j =>
    have h := count_decr t .links .links 1 j i
    rw [Option.elim_some]
    refine h.trans ?_
    by_cases hij : i = j
    · simp [hij]
    · simp [hij, Ne.symm hij]

/-- No other name of a node that a move replaces leads `path_for` to the destination: neither one of
its own, nor one of the directories it is then addressed through. -/
def Namespace.LeavesDestination (ns : Namespace) (old new : Dentry) : Prop :=
  ∀ source id p, ns.find old = some source → ns.find new = some id →
    ns.pathFor new.parent = some (some p) →
    ¬ Spells (ns.firstLeft old new source) id (p.push new.name)

/-- A replaced node that has no other name leaves the destination. -/
theorem Namespace.leavesDestination_of_only_name {ns : Namespace} {old new : Dentry}
    (hdiff : ∀ id, ns.find old = some id → ns.find new ≠ some id)
    (hnames : ∀ id, ns.find new = some id → id ≠ NodeId.ROOT ∧ ns.names id = {new}) :
    ns.LeavesDestination old new := by
  intro source id p hold hnew _ hspells
  obtain ⟨hroot, hname⟩ := hnames id hnew
  have hid : id ≠ source := by
    rintro rfl
    exact hdiff id hold hnew
  generalize p.push new.name = q at hspells
  cases hspells with
  | root => exact hroot rfl
  | step _ hd _ =>
    unfold firstLeft namesLeft at hd
    rw [if_neg hid, if_pos hnew, hname, Finset.erase_singleton] at hd
    cases hd

/-- A moved binding replaces what was there. -/
lemma renameUnbinds_of_moved {s s' : RtState (PathNodeFs.sig P)} {old new : Dentry}
    {source : NodeId} (hne : old ≠ new) (hpos : ∀ id, s.fs.ns.find new = some id →
      0 < s.table.count .links id) (hold : s.fs.ns.find old = some source)
    (hnew : s.fs.ns.find new ≠ some source) (hns : s'.fs.ns = s.fs.ns.move old new source)
    (ht : s'.table = ((s.fs.ns.find new).elim s.table s.table.removeLink).reparent
      source new.parent)
    (hleaves : s.fs.ns.LeavesDestination old new) : RenameUnbinds s s' old new := by
  have hsource : ∀ id, s.fs.ns.find new = some id → id ≠ source := by
    rintro id h rfl
    exact hnew h
  have hfind : s'.fs.ns.find new = some source := by
    rw [hns, Namespace.find_move, if_pos rfl]
  refine ⟨?_, ?_, ?_, ?_, ?_⟩
  · rw [hns, Namespace.find_move, if_neg hne, if_pos rfl]
  · intro id h
    rw [hfind] at h
    rw [hold, h]
  · intro id h
    refine ⟨?_, ?_⟩
    · rw [hns, Namespace.names_move_other hne hold (hsource id h), if_pos h]
      exact Finset.notMem_erase new _
    · have hlinks := hpos id h
      rw [ht, count_links_moved, if_pos h]
      omega
  · intro id h p hp hpath
    rw [hns, Namespace.pathFor_move hne hold hnew] at hpath
    exact hleaves source id p hold h hp hpath
  · intro id h m caller i s'' ha
    have hi := (Effect.lookup_bound hfind caller).of_alone ha i rfl
    rw [hi]
    exact (hsource id h).symm

/-- A bound node has a link in every reachable state. -/
lemma links_pos_of_bound {c : Config (service (pathNodeFs P))}
    (hr : Run anyAction (start (pathNodeFs P)) c) {d : Dentry} {id : NodeId}
    (hd : c.state.fs.ns.find d = some id) : 0 < c.state.table.count .links id := by
  have hholds : (pathLogic P False).Holds c := path_holds (fun h => h.elim) hr
  obtain ⟨T, hinv⟩ := hholds.inv
  have hinv' : PathInv False c.state (pathView T) := hinv
  exact hinv'.linked.links_pos hd

/-- Two files are made, and the second one gets another name. -/
private def linkedFiles : List (Action (service PathSample.fs)) :=
  PathSample.whole 0 19 (PathSample.mknod [97]) ++ PathSample.whole 1 19 (PathSample.mknod [98]) ++
    PathSample.whole 2 18 (.makeOp (.link 3 NodeId.ROOT [99]) {})

/-- A file is also named in a directory that is addressed like the one of the destination. -/
private def sameDirectory : List (Action (service PathSample.fs)) :=
  PathSample.whole 0 19 (PathSample.mknod [102]) ++
    PathSample.whole 1 19 (.makeOp (.mkdir NodeId.ROOT [120] 0 0) {}) ++
    PathSample.whole 2 18 (.makeOp (.link 2 NodeId.ROOT [120]) {}) ++
    PathSample.whole 3 8 (.treeOp (.unlink NodeId.ROOT [120]) {}) ++
    PathSample.whole 4 19 (.makeOp (.mkdir NodeId.ROOT [120] 0 0) {}) ++
    PathSample.whole 5 19 (.makeOp (.mknod 3 [110] 0 0 0) {}) ++
    PathSample.whole 6 18 (.makeOp (.link 5 4 [110]) {}) ++
    PathSample.whole 7 19 (PathSample.mknod [115])

-- the replaced file keeps the path of the destination through its other name
example : PathSample.endsIn 8 20 (call (PathNodeFs.rename NodeId.ROOT [115] 3 [110] 0 {}))
    (PathSample.after PathSample.aloneCheck sameDirectory).state (.ok Value.unit) (fun s' =>
      (PathSample.after PathSample.aloneCheck sameDirectory).state.fs.ns.find ⟨3, [110]⟩ =
        some 5 ∧
        s'.fs.ns.pathFor 3 = some (some [47, 120]) ∧
        s'.fs.ns.pathFor 5 = some (some [47, 120, 47, 110])) = true := by
  decide +kernel

/-- One file is made. -/
private def oneFile : List (Action (service PathSample.fs)) :=
  PathSample.whole 0 19 (PathSample.mknod [98])

namespace Namespace

variable {ns : Namespace} {old new : Dentry} {source i j : NodeId} {po : List Name}

/-- What the move of a binding changes keeps the maps inverse to each other. -/
lemma Inverse.move (hinv : ns.Inverse) (hne : old ≠ new) (hold : ns.find old = some source)
    (hnew : ns.find new ≠ some source) : (ns.move old new source).Inverse := by
  intro d i
  rw [find_move]
  by_cases hi : i = source
  · subst hi
    rw [names_move_source hne hold hnew, Finset.mem_insert, Finset.mem_erase, hinv]
    by_cases hdn : d = new
    · simp [hdn]
    · by_cases hdo : d = old
      · simp [hdo, hne]
      · simp [hdn, hdo]
  · rw [names_move_other hne hold hi]
    by_cases hdn : d = new
    · subst hdn
      rw [if_pos rfl]
      constructor
      · intro hmem
        split at hmem
        · exact absurd hmem (Finset.notMem_erase d _)
        · next hnot => exact absurd ((hinv d i).mp hmem) hnot
      · intro heq
        exact absurd (Option.some.inj heq).symm hi
    · have hmem : d ∈ (if ns.find new = some i then (ns.names i).erase new else ns.names i) ↔
          d ∈ ns.names i := by
        split
        · rw [Finset.mem_erase]
          exact ⟨And.right, fun h => ⟨hdn, h⟩⟩
        · exact Iff.rfl
      rw [hmem, hinv, if_neg hdn]
      by_cases hdo : d = old
      · subst hdo
        rw [if_pos rfl, hold]
        constructor
        · intro heq
          exact absurd (Option.some.inj heq).symm hi
        · intro heq
          cases heq
      · rw [if_neg hdo]

/-- Moving a node out of its own subtree closes no cycle. -/
lemma Acyclic.move (hac : ns.Acyclic) (hbelow : ¬ ReflTransGen ns.Child source new.parent) :
    (ns.move old new source).Acyclic := by
  intro i hi
  have hedge : ∀ a b, (ns.move old new source).Child a b →
      ns.Child a b ∨ (a = new.parent ∧ b = source) := by
    rintro a b ⟨name, h⟩
    rw [find_move] at h
    split at h
    · next heq =>
      refine Or.inr ⟨?_, (Option.some.inj h).symm⟩
      rw [← heq]
    · split at h
      · cases h
      · exact Or.inl ⟨name, h⟩
  rcases transGen_insert_edge hedge hi with h | ⟨hu, hv⟩
  · exact hac i h
  · exact hbelow (hv.trans hu)

/-- What is found under the old name is neither of the two directories. -/
lemma ne_parents (hac : ns.Acyclic) (hold : ns.find old = some source)
    (hbelow : ¬ ReflTransGen ns.Child source new.parent) (hpo : ns.walk po = some old.parent)
    {q : List Name} (h : ns.walk (po ++ old.name :: q) = some i) :
    i ≠ new.parent ∧ i ≠ old.parent := by
  obtain ⟨m, hm, hmi⟩ := walk_through h hpo
  obtain rfl := Option.some.inj (hold.symm.trans hm)
  refine ⟨?_, ?_⟩
  · rintro rfl
    exact hbelow hmi
  · rintro rfl
    exact hac _ (TransGen.head' ⟨old.name, hold⟩ hmi)

/-- Bindings other than the moved one are found as before. -/
lemma find_move_other {name : Name} (hn : (⟨j, name⟩ : Dentry) ≠ new)
    (ho : (⟨j, name⟩ : Dentry) ≠ old) :
    (ns.move old new source).find ⟨j, name⟩ = ns.find ⟨j, name⟩ := by
  rw [find_move, if_neg hn, if_neg ho]

/-- Walks after a move: what is found under the new name is what was under the old one, nothing is
under the old one, and everything else is where it was. -/
theorem walk_move (hac : ns.Acyclic) (hold : ns.find old = some source)
    (hbelow : ¬ ReflTransGen ns.Child source new.parent) (hpo : ns.walk po = some old.parent)
    (huo : ∀ r, ns.walk r = some old.parent → r = po) (p : List Name) (i : NodeId) :
    (ns.move old new source).walk p = some i ↔
      (∃ r q, ns.walk r = some new.parent ∧ p = r ++ new.name :: q ∧
        ns.walk (po ++ old.name :: q) = some i) ∨
        (¬ po ++ [old.name] <+: p ∧
          (∀ r, ns.walk r = some new.parent → ¬ r ++ [new.name] <+: p) ∧
          ns.walk p = some i) := by
  have hfound : ns.walk (po ++ [old.name]) = some source :=
    walk_snoc_eq_some.mpr ⟨old.parent, hpo, hold⟩
  induction p using List.reverseRecOn generalizing i with
  | nil =>
    constructor
    · intro h
      exact Or.inr ⟨by simp, by simp, h⟩
    · rintro (⟨r, q, _, hq, _⟩ | ⟨_, _, h⟩)
      · simp at hq
      · exact h
  | append_singleton p x ih =>
    constructor
    · intro h
      obtain ⟨j, hj, hx⟩ := walk_snoc_eq_some.mp h
      rcases (ih j).mp hj with ⟨r, q, hr, rfl, hq⟩ | ⟨hno, hnn, hw⟩
      · -- below the new name
        obtain ⟨hjn, hjo⟩ := ne_parents hac hold hbelow hpo hq
        have hx' : ns.find ⟨j, x⟩ = some i := by
          rwa [find_move_other (fun h => hjn (congrArg Dentry.parent h))
            fun h => hjo (congrArg Dentry.parent h)] at hx
        refine Or.inl ⟨r, q ++ [x], hr, by simp, ?_⟩
        rw [show po ++ old.name :: (q ++ [x]) = (po ++ old.name :: q) ++ [x] by simp]
        exact walk_snoc_eq_some.mpr ⟨j, hq, hx'⟩
      · by_cases hn : (⟨j, x⟩ : Dentry) = new
        · -- the new name itself
          rw [find_move, if_pos hn] at hx
          obtain rfl := hn
          refine Or.inl ⟨p, [], hw, rfl, ?_⟩
          rw [← hx]
          exact hfound
        · by_cases ho : (⟨j, x⟩ : Dentry) = old
          · rw [find_move, if_neg hn, if_pos ho] at hx
            cases hx
          · have hx' : ns.find ⟨j, x⟩ = some i := by
              rwa [find_move_other hn ho] at hx
            refine Or.inr ⟨?_, ?_, walk_snoc_eq_some.mpr ⟨j, hw, hx'⟩⟩
            · intro hpre
              rcases List.prefix_concat_iff.mp hpre with heq | hpre
              · obtain ⟨rfl, hname⟩ := List.append_inj' heq rfl
                obtain rfl := Option.some.inj (hpo.symm.trans hw)
                exact ho (by rw [← List.singleton_inj.mp hname])
              · exact hno hpre
            · intro r hr hpre
              rcases List.prefix_concat_iff.mp hpre with heq | hpre
              · obtain ⟨rfl, hname⟩ := List.append_inj' heq rfl
                obtain rfl := Option.some.inj (hr.symm.trans hw)
                exact hn (by rw [← List.singleton_inj.mp hname])
              · exact hnn r hr hpre
    · rintro (⟨r, q, hr, hq, hw⟩ | ⟨hno, hnn, hw⟩)
      · induction q using List.reverseRecOn with
        | nil =>
          obtain ⟨rfl, hname⟩ := List.append_inj' hq rfl
          obtain rfl := List.singleton_inj.mp hname
          obtain rfl := Option.some.inj (hfound.symm.trans hw)
          -- the directory of the new name is under neither name
          have hpre : ¬ po ++ [old.name] <+: p := by
            rintro ⟨q, rfl⟩
            have hq' : ns.walk (po ++ old.name :: q) = some new.parent := by simpa using hr
            exact (ne_parents hac hold hbelow hpo hq').1 rfl
          have hself : ∀ r, ns.walk r = some new.parent → ¬ r ++ [new.name] <+: p := by
            rintro r hr' ⟨q, rfl⟩
            have hq' : ns.walk (r ++ new.name :: q) = some new.parent := by simpa using hr
            obtain ⟨m, hm, hcycle⟩ := walk_through hq' hr'
            exact hac _ (TransGen.head' ⟨new.name, hm⟩ hcycle)
          refine walk_snoc_eq_some.mpr
            ⟨new.parent, (ih _).mpr (Or.inr ⟨hpre, hself, hr⟩), ?_⟩
          rw [find_move, if_pos rfl]
        | append_singleton q y _ =>
          have hsplit : p ++ [x] = (r ++ new.name :: q) ++ [y] := by simpa using hq
          obtain ⟨rfl, hname⟩ := List.append_inj' hsplit rfl
          obtain rfl := List.singleton_inj.mp hname
          rw [show po ++ old.name :: (q ++ [x]) = (po ++ old.name :: q) ++ [x] by simp] at hw
          obtain ⟨j, hj, hx⟩ := walk_snoc_eq_some.mp hw
          obtain ⟨hjn, hjo⟩ := ne_parents hac hold hbelow hpo hj
          refine walk_snoc_eq_some.mpr ⟨j, (ih j).mpr (Or.inl ⟨r, q, hr, rfl, hj⟩), ?_⟩
          rw [find_move_other (fun h => hjn (congrArg Dentry.parent h))
            fun h => hjo (congrArg Dentry.parent h)]
          exact hx
      · obtain ⟨j, hj, hx⟩ := walk_snoc_eq_some.mp hw
        have hextend : ∀ {l : List Name}, ¬ l <+: p ++ [x] → ¬ l <+: p :=
          fun h hpre => h (hpre.trans (List.prefix_append p [x]))
        have hbefore := (ih j).mpr (Or.inr ⟨hextend hno, fun r hr => hextend (hnn r hr), hj⟩)
        refine walk_snoc_eq_some.mpr ⟨j, hbefore, ?_⟩
        rw [find_move_other]
        · exact hx
        · rintro rfl
          exact hnn p hj List.prefix_rfl
        · rintro rfl
          refine hno ?_
          rw [huo p hj]

end Namespace

/-- The effect of a rename on everything that can be named. -/
structure RenameMoves (s s' : RtState (PathNodeFs.sig P)) (old new : Dentry) (source : NodeId) :
    Prop where
  /-- The old directory has one path, and a walk leads under the new name to what was under the old
  one, under the old name to nothing, and everywhere else to where it led before. -/
  walks : ∃ po, s.fs.ns.pathFor old.parent = some (some (Path.render po)) ∧
    s.fs.ns.walk po = some old.parent ∧
    ∀ p id, s'.fs.ns.walk p = some id ↔
      (∃ pn q, s.fs.ns.walk pn = some new.parent ∧ p = pn ++ new.name :: q ∧
        s.fs.ns.walk (po ++ old.name :: q) = some id) ∨
        (¬ po ++ [old.name] <+: p ∧
          (∀ pn, s.fs.ns.walk pn = some new.parent → ¬ pn ++ [new.name] <+: p) ∧
          s.fs.ns.walk p = some id)
  /-- The new directory has a path, and no other one if it has at most one name. -/
  newPath : ∃ pn, s.fs.ns.pathFor new.parent = some (some (Path.render pn)) ∧
    s.fs.ns.walk pn = some new.parent ∧
    ((s.fs.ns.names new.parent).card ≤ 1 → ∀ r, s.fs.ns.walk r = some new.parent → r = pn)
  /-- The replaced node loses this name and one link. -/
  replaced : ∀ id, s.fs.ns.find new = some id →
    new ∈ s.fs.ns.names id ∧ s'.fs.ns.names id = (s.fs.ns.names id).erase new ∧
      s'.table.count .links id + 1 = s.table.count .links id
  /-- The source has the new name for the old one. -/
  gained : s'.fs.ns.names source = insert new ((s.fs.ns.names source).erase old) ∧
    s'.table.count .links source = s.table.count .links source
  /-- Nothing else changes. -/
  others : ∀ id, id ≠ source → s.fs.ns.find new ≠ some id →
    s'.fs.ns.names id = s.fs.ns.names id ∧
      s'.table.count .links id = s.table.count .links id
  /-- A path of a node leads to it. -/
  paths : ∀ id, ∃ r, s'.fs.ns.pathFor id = some r ∧
    ∀ path, r = some path → ∃ p, path = Path.render p ∧ s'.fs.ns.walk p = some id

/-- The effect of a successful rename, in every reachable state whose namespace is a tree of
directories with hard-linked files, if the source is known and moves neither onto itself nor into
its own subtree. -/
theorem rename_moves {c : Config (service (pathNodeFs P))}
    (hr : Run anyAction (start (pathNodeFs P)) c) {old new : Dentry} {source : NodeId}
    (hinv : c.state.fs.ns.Inverse) (hac : c.state.fs.ns.Acyclic)
    (hsingle : c.state.fs.ns.SingleAlias) (hold : c.state.fs.ns.find old = some source)
    (hnew : c.state.fs.ns.find new ≠ some source)
    (hbelow : ¬ ReflTransGen c.state.fs.ns.Child source new.parent) {caller : Caller} {v : Value}
    {s' : RtState (PathNodeFs.sig P)}
    (h : Alone (service (pathNodeFs P)) n (call (σ := PathNodeFs.sig P)
      (PathNodeFs.rename old.parent old.name new.parent new.name 0 caller)) c.state (.ok v) s') :
    RenameMoves c.state s' old new source := by
  obtain ⟨⟨path, hpath⟩, ⟨path', hpath'⟩, hmoved⟩ :=
    (Effect.rename old.parent old.name new.parent new.name 0 caller).of_alone h v rfl
  have hne : old ≠ new := by
    rintro rfl
    exact hnew hold
  have hnamed : ∀ d i, d ∈ c.state.fs.ns.names i → c.state.fs.ns.find d = some i :=
    fun d i => (hinv d i).mp
  obtain ⟨po, rfl, hpo⟩ := Namespace.walk_of_pathWithin hnamed hpath
  obtain ⟨pn, rfl, hpn⟩ := Namespace.walk_of_pathWithin hnamed hpath'
  generalize hns : s'.fs.ns = ns' at hmoved
  generalize ht : s'.table = t' at hmoved
  cases hmoved with
  | unknown h => exact absurd (h.symm.trans hold) (by simp)
  | same h₁ h₂ =>
    obtain rfl := Option.some.inj (hold.symm.trans h₁)
    exact absurd h₂ hnew
  | moved h₁ h₂ =>
    obtain rfl := Option.some.inj (hold.symm.trans h₁)
    refine ⟨⟨po, hpath, hpo, ?_⟩, ⟨pn, hpath', hpn, ?_⟩, ?_, ⟨?_, ?_⟩, ?_, ?_⟩
    · rw [hns]
      refine Namespace.walk_move hac hold hbelow hpo ?_
      intro r hwalk
      exact Namespace.walk_unique hinv hac hsingle (hsingle old source hold) hwalk hpo
    · intro hdir r hwalk
      exact Namespace.walk_unique hinv hac hsingle hdir hwalk hpn
    · intro id hid
      have hsource : id ≠ source := by
        rintro rfl
        exact hnew hid
      have hpos := links_pos_of_bound hr hid
      refine ⟨(hinv new id).mpr hid, ?_, ?_⟩
      · rw [hns, Namespace.names_move_other hne hold hsource, if_pos hid]
      · rw [ht, count_links_moved, if_pos hid]
        exact Nat.sub_add_cancel hpos
    · rw [hns, Namespace.names_move_source hne hold hnew]
    · rw [ht, count_links_moved, if_neg hnew, Nat.sub_zero]
    · intro id hsource hid
      refine ⟨?_, ?_⟩
      · rw [hns, Namespace.names_move_other hne hold hsource, if_neg hid]
      · rw [ht, count_links_moved, if_neg hid, Nat.sub_zero]
    · rw [hns]
      have hinv' := hinv.move hne hold hnew
      exact Namespace.pathFor_resolves (fun d i => (hinv' d i).mp) (hac.move hbelow)

/-- A namespace in which all nodes have a greater number than their directory has no cycle. -/
lemma Namespace.le_of_increasing {ns : Namespace}
    (h : ∀ d i, ns.find d = some i → d.parent < i) {i j : NodeId}
    (hij : ReflTransGen ns.Child i j) : i ≤ j := by
  induction hij with
  | refl => exact le_rfl
  | tail _ hchild ih =>
    obtain ⟨name, hname⟩ := hchild
    exact ih.trans (h _ _ hname).le

lemma Namespace.acyclic_of_increasing {ns : Namespace}
    (h : ∀ d i, ns.find d = some i → d.parent < i) : ns.Acyclic := by
  intro i hi
  obtain ⟨j, ⟨name, hname⟩, hji⟩ := TransGen.head'_iff.mp hi
  exact absurd (h _ _ hname) (Nat.not_lt_of_le (le_of_increasing h hji))

/-- A directory with a file and another directory are made. -/
private def twoDirectories : List (Action (service PathSample.fs)) :=
  PathSample.whole 0 19 (.makeOp (.mkdir NodeId.ROOT [100] 0 0) {}) ++
    PathSample.whole 1 19 (.makeOp (.mknod 2 [120] 0 0 0) {}) ++
    PathSample.whole 2 19 (.makeOp (.mkdir NodeId.ROOT [101] 0 0) {})

/-- The directory with the file is renamed over the other one. -/
theorem rename_moves_directory : ∃ (c : Config (service PathSample.fs))
    (s' : RtState (PathNodeFs.sig PathSample.inner)),
    Run anyAction (start PathSample.fs) c ∧ c.state.fs.ns.find ⟨1, [100]⟩ = some 2 ∧
      c.state.fs.ns.find ⟨2, [120]⟩ = some 3 ∧ c.state.fs.ns.find ⟨1, [101]⟩ = some 4 ∧
      Alone (service PathSample.fs) 3
        (call (PathNodeFs.rename 1 [100] 1 [101] 0 {})) c.state (.ok .unit) s' ∧
      RenameMoves c.state s' ⟨1, [100]⟩ ⟨1, [101]⟩ 2 := by
  have hr := PathSample.run_after PathSample.noOverwrite_of_check twoDirectories (by decide +kernel)
  have hq : (PathSample.after PathSample.freshCheck twoDirectories).Quiet :=
    PathSample.quiet_of_all (by decide +kernel)
  have hmap : (PathSample.after PathSample.freshCheck twoDirectories).state.fs.ns.byName =
      (((∅ : BTreeMap Dentry NodeId).insert ⟨1, [100]⟩ 2).insert ⟨2, [120]⟩ 3).insert
        ⟨1, [101]⟩ 4 := by decide +kernel
  have hnames : ∀ i ∈ [1, 2], ((PathSample.after PathSample.freshCheck
      twoDirectories).state.fs.ns.names i).card ≤ 1 := by decide +kernel
  obtain ⟨s', ha, _⟩ := PathSample.alone_of_endsIn (n := 3) (m := 20)
    (p := call (PathNodeFs.rename 1 [100] 1 [101] 0 {}))
    (s := (PathSample.after PathSample.freshCheck twoDirectories).state) (a := .ok Value.unit)
    (Φ := fun _ => true) (by decide +kernel)
  generalize PathSample.after PathSample.freshCheck twoDirectories = c at hr hq hmap hnames ha
  have hholds : (pathLogic PathSample.inner True).Holds c := path_holds (fun _ _ _ h => h) hr
  have hinv : PathInv True c.state (pathView 0) := hholds.inv_quiet hq
  have hlinked := hinv.linked
  have hfind : ∀ d, c.state.fs.ns.find d = if d = ⟨1, [101]⟩ then some 4 else
      if d = ⟨2, [120]⟩ then some 3 else if d = ⟨1, [100]⟩ then some 2 else none := by
    intro d
    unfold Namespace.find
    rw [hmap, BTreeMap.lookup_insert_ite, BTreeMap.lookup_insert_ite, BTreeMap.lookup_insert_ite]
    rfl
  have hbound : ∀ d i, c.state.fs.ns.find d = some i →
      d.parent ∈ [1, 2] ∧ d.parent < i := by
    intro d i hd
    rw [hfind] at hd
    split at hd
    · next heq => rw [heq, ← Option.some.inj hd]; decide
    · split at hd
      · next heq => rw [heq, ← Option.some.inj hd]; decide
      · split at hd
        · next heq => rw [heq, ← Option.some.inj hd]; decide
        · cases hd
  have hlt := fun d i hd => (hbound d i hd).2
  refine ⟨c, s', hr.any, hfind _, hfind _, hfind _, ha, rename_moves hr.any ?_
    (Namespace.acyclic_of_increasing hlt) ?_ (hfind _) ?_ ?_ ha⟩
  · exact fun d i => ⟨hlinked.named trivial d i, hlinked.bound d i⟩
  · exact fun d i hd => hnames _ (hbound d i hd).1
  · rw [hfind]
    decide
  · exact fun hbelow => absurd (Namespace.le_of_increasing hlt hbelow) (by decide)

end TypedFuse
