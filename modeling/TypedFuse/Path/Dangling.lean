import TypedFuse.Path.Keeping
import TypedFuse.Path.Rooted

/-!
# Names below removed directories

Between the requests of a sequential run all names lead back to the root, as long as two kinds of
steps meet a condition.  Taking a link for a removed name must not leave names bound in a node that
has no name any more; the adapter does so when the inner filesystem lets it remove, or replace, a
directory in which names are bound.  A known node must not get a bound name, nor a name below
itself.

The condition is on the instruction and the state before it (`Careful`).  Listings meet it
whatever the inner filesystem emits: they only take back names of nodes that they have made
themselves.
-/

namespace TypedFuse

open Conc Conc.Service NodeTable TypedFuse.Runtime

variable {P : PathFilesystem} {moved : Option Dentry}

/-- The name that a request is to move away. -/
def Request.moves : Request → Option Dentry
  | .treeOp (.rename parent name _ _ _) _ => some ⟨parent, name⟩
  | _ => none

/-- The condition on steps: a node that has lost a name may lose the link, and a known node may get
a name. -/
def Careful (moved : Option Dentry) (i : RtInstr (PathNodeFs.sig P))
    (s : RtState (PathNodeFs.sig P)) : Prop :=
  match i with
  | .fs (.removeLink id) => s.fs.ns.CanUnbind moved id
  | .fs (.own i) =>
    match (i : PathInstr P) with
    | .addAlias id d => s.fs.ns.CanBind id d
    | _ => True
  | _ => True

/-- The condition on the steps of a request. -/
def carefully (req : Request) (i : RtInstr (PathNodeFs.sig P)) (s : RtState (PathNodeFs.sig P)) :
    Prop :=
  Careful req.moves i s

lemma canUnbind_of_allowed {ns : Namespace} {t : PathTable P} {id : NodeId}
    (h : Allowed (Careful moved) ns t (.fs (.removeLink id))) : ns.CanUnbind moved id := by
  obtain ⟨s, rfl, _, hok⟩ := h
  exact hok

lemma canBind_of_allowed {ns : Namespace} {t : PathTable P} {id : NodeId} {d : Dentry}
    (h : Allowed (Careful moved) ns t
      (.fs (FsInstr.own (σ := PathNodeFs.sig P) (.addAlias id d)))) :
    ns.CanBind id d := by
  obtain ⟨s, rfl, _, hok⟩ := h
  exact hok

/-! ## Removing, linking and moving names -/

section Callbacks

variable {ns : Namespace} {t : PathTable P} {n : ℕ}

lemma rooted_link (id newparent : NodeId) (newname : Name) (caller : Caller) :
    Preserves P (Careful moved) (Rooted (P := P))
      (PathNodeFs.link id newparent newname caller) := by
  intro n ns t hroot
  refine EffectIf.writing (EffectIf.withPathOf hroot fun source hsource => ?_)
  refine EffectIf.withPathOf hroot fun parent hparent => ?_
  refine EffectIf.innerThen (Effect.inner _) (fun e => hroot) fun attr => ?_
  refine EffectIf.quiet Effect.nsLock fun _ => (EffectIf.perform (Effect.addAlias id _)).bind ?_
  rintro _ _ _ ⟨⟨rfl, rfl⟩, hok⟩
  refine EffectIf.quiet Effect.nsUnlock fun _ => (EffectIf.addLink id).bind ?_
  rintro _ _ t' ⟨rfl, hadd⟩
  have hid := Namespace.Placed.of_pathFor hroot.named hsource
  have hp := Namespace.Placed.of_pathFor hroot.named hparent
  exact EffectIf.ret (hroot.bound hid hp (canBind_of_allowed hok) hadd)

/-- Removing a name and its link. -/
lemma rooted_removeDentry (hroot : Rooted ns t) (d : Dentry) :
    EffectIf P (Careful none) n ns t (PathNodeFs.removeDentry d) fun _ ns' t' => Rooted ns' t' := by
  refine EffectIf.quiet Effect.nsLock fun _ => (EffectIf.of_effect (Effect.remove d)).bind ?_
  rintro removed _ _ ⟨rfl, rfl, rfl⟩
  refine (EffectIf.removeLinkOf _).bind ?_
  rintro _ _ _ ⟨rfl, rfl, hok⟩
  refine EffectIf.of_effect (Effect.nsUnlock.mono ?_)
  rintro _ _ _ ⟨rfl, rfl⟩
  cases hd : ns.find d with
  | none =>
    rw [Namespace.remove_of_unbound hd]
    exact hroot
  | some id => exact hroot.removed hd (canUnbind_of_allowed (hok id hd))

lemma rooted_removeEntry (parent : NodeId) (name : Name) (directory : Bool) (caller : Caller) :
    Preserves P (Careful none) (Rooted (P := P))
      (PathNodeFs.removeEntry parent name directory caller) := by
  intro n ns t hroot
  have hinner : ∀ p, Effect P n ns t (PathNodeFs.removeInner p name directory caller)
      fun _ ns' t' => ns' = ns ∧ t' = t := fun p => Effect.removeInner p name directory caller
  refine EffectIf.writing (EffectIf.withPathOf hroot fun p _ => ?_)
  refine EffectIf.innerThen (hinner p) (fun e => hroot) fun _ => ?_
  refine (rooted_removeDentry hroot ⟨parent, name⟩).bind ?_
  intro _ ns' t' h
  exact EffectIf.ret h

/-- The end of `rename`, into a placed directory. -/
lemma rooted_moveDentry (hroot : Rooted ns t) {old new : Dentry}
    (hmoved : ∀ d, moved = some d → d = old) (hp : ns.Placed new.parent) :
    EffectIf P (Careful moved) n ns t (PathNodeFs.moveDentry old new)
      fun _ ns' t' => Rooted ns' t' := by
  refine (EffectIf.of_effect (Effect.find old)).bind ?_
  rintro r _ _ ⟨hold, rfl, rfl⟩
  cases r with
  | none => exact EffectIf.ret hroot
  | some source =>
    refine (EffectIf.of_effect (Effect.find new)).bind ?_
    rintro target _ _ ⟨htarget, rfl, rfl⟩
    refine EffectIf.ite (fun _ => EffectIf.ret hroot) fun hsame => ?_
    refine (EffectIf.of_effect (Effect.remove new)).bind ?_
    rintro replaced _ _ ⟨rfl, rfl, rfl⟩
    refine (EffectIf.removeLinkOf _).bind ?_
    rintro _ _ _ ⟨rfl, rfl, hunbind⟩
    refine (EffectIf.of_effect (Effect.remove old)).bind ?_
    rintro _ _ _ ⟨_, rfl, rfl⟩
    refine (EffectIf.perform (Effect.addAlias source new)).bind ?_
    rintro _ _ _ ⟨⟨rfl, rfl⟩, hbind⟩
    refine EffectIf.of_effect ((Effect.reparent source new.parent).mono ?_)
    rintro _ _ _ ⟨rfl, rfl⟩
    refine hroot.moved hold.symm (fun h => hsame (htarget.trans h)) hp ?_ (canBind_of_allowed hbind)
    intro target ht
    exact (canUnbind_of_allowed (hunbind target ht)).mono hmoved

lemma rooted_rename (parent : NodeId) (name : Name) (newparent : NodeId) (newname : Name)
    (flags : ℕ) (caller : Caller) (hmoved : ∀ d, moved = some d → d = ⟨parent, name⟩) :
    Preserves P (Careful moved) (Rooted (P := P))
      (PathNodeFs.rename parent name newparent newname flags caller) := by
  intro n ns t hroot
  refine EffectIf.ite (fun _ => EffectIf.ret hroot) fun _ => ?_
  refine EffectIf.writing (EffectIf.withPathOf hroot fun p _ => ?_)
  refine EffectIf.withPathOf hroot fun p' hp' => ?_
  refine EffectIf.innerThen (Effect.inner _) (fun e => hroot) fun _ => ?_
  refine EffectIf.quiet Effect.nsLock fun _ => ?_
  have hp : ns.Placed newparent := .of_pathFor hroot.named hp'
  have hend : EffectIf P (Careful moved) n ns t
      (PathNodeFs.moveDentry ⟨parent, name⟩ ⟨newparent, newname⟩) fun _ ns' t' =>
      Rooted ns' t' :=
    rooted_moveDentry hroot hmoved hp
  refine hend.bind ?_
  intro _ ns' t' h
  exact EffectIf.quiet Effect.nsUnlock fun _ => EffectIf.ret h

/-- `unlink`, `rmdir` and `rename`. -/
lemma rooted_treeOp (op : TreeOp) (caller caller' : Caller) :
    Preserves P (carefully (.treeOp op caller')) (Rooted (P := P))
      (PathNodeFs.treeOp op caller) := by
  cases op with
  | unlink parent name => exact rooted_removeEntry parent name false caller
  | rmdir parent name => exact rooted_removeEntry parent name true caller
  | rename parent name newparent newname flags =>
    exact rooted_rename parent name newparent newname flags caller
      fun d hd => (Option.some.inj hd).symm
  | copyFileRange =>
    intro n ns t hroot
    exact EffectIf.ret hroot

end Callbacks

/-! ## Listings -/

/-- A listing of `this` is at work and may have to take the names `inserted` back: their nodes are
new, so nothing is bound in them. -/
structure Emitting (this : NodeId) (inserted : List Dentry) (ns : Namespace) (t : PathTable P) :
    Prop where
  rooted : Rooted ns t
  placed : ns.Placed this
  fresh : ∀ d ∈ inserted, ∀ id, ns.find d = some id →
    id ≠ this ∧ ∀ d' i, ns.find d' = some i → d'.parent ≠ id

namespace Emitting

variable {this : NodeId} {inserted : List Dentry} {ns : Namespace} {t : PathTable P} {d : Dentry}

/-- Taking a name back. -/
lemma takeBack (h : Emitting this inserted ns t) (hd : d ∈ inserted) {id : NodeId}
    (hfind : ns.find d = some id) : Emitting this inserted (ns.remove d).2 (t.removeLink id) := by
  obtain ⟨hthis, hempty⟩ := h.fresh d hd id hfind
  have hback : ∀ d' j, (ns.remove d).2.find d' = some j → ns.find d' = some j := by
    intro d' j hd'
    rw [Namespace.find_remove] at hd'
    split at hd'
    · cases hd'
    · exact hd'
  refine ⟨?_, ?_, ?_⟩
  · refine h.rooted.removed hfind (Or.inr ?_)
    intro d' j hd' hp
    exact absurd hp (hempty d' j (hback d' j hd'))
  · rcases h.placed with hroot | ⟨d₀, hd₀⟩
    · exact Or.inl hroot
    · refine Or.inr ⟨d₀, ?_⟩
      rw [Namespace.find_remove, if_neg, hd₀]
      rintro rfl
      rw [hfind] at hd₀
      exact hthis (Option.some.inj hd₀)
  · intro d' hd' id' hid'
    obtain ⟨hne, hnone⟩ := h.fresh d' hd' id' (hback d' id' hid')
    exact ⟨hne, fun d'' j hj => hnone d'' j (hback d'' j hj)⟩

/-- Making a node for a name. -/
lemma made (h : Emitting this inserted ns t) {name : Name} (hd : ns.find ⟨this, name⟩ = none)
    {key : ℕ} {ns₁ : Namespace} {id : NodeId} {t' : PathTable P}
    (hkey : ns.takeKey = some (key, ns₁))
    (hins : t.insert (⟨key⟩ : PathNode) this = some (id, t')) :
    Emitting this (inserted ++ [⟨this, name⟩]) (ns₁.record key id ⟨this, name⟩) t' := by
  have hfind : ∀ d', (ns₁.record key id ⟨this, name⟩).find d' =
      if d' = ⟨this, name⟩ then some id else ns.find d' := Namespace.find_recorded hkey
  have hdead := h.rooted.wf.insert_dead hins
  have hthis : id ≠ this := by
    rintro rfl
    obtain ⟨sl, hsl⟩ := h.rooted.live h.placed
    rw [hdead] at hsl
    cases hsl
  -- names are bound in `this` or where they were
  have hparent : ∀ d' j, (ns₁.record key id ⟨this, name⟩).find d' = some j →
      d'.parent = this ∨ ns.find d' = some j := by
    intro d' j hd'
    rw [hfind] at hd'
    split at hd'
    · next heq => exact Or.inl (by rw [heq])
    · exact Or.inr hd'
  refine ⟨h.rooted.made hd h.placed hkey hins, ?_, ?_⟩
  · refine h.placed.mono ?_
    intro d' j hd'
    rw [hfind, if_neg, hd']
    rintro rfl
    rw [hd] at hd'
    cases hd'
  · intro d' hd' id' hid'
    have hmade : id' = id ∨ (d' ∈ inserted ∧ ns.find d' = some id') := by
      rw [hfind] at hid'
      split at hid'
      · exact Or.inl (Option.some.inj hid').symm
      · next hne =>
        rcases List.mem_append.mp hd' with hmem | hmem
        · exact Or.inr ⟨hmem, hid'⟩
        · exact absurd (List.mem_singleton.mp hmem) hne
    rcases hmade with rfl | ⟨hmem, hold⟩
    · refine ⟨hthis, ?_⟩
      intro d'' j hj
      rcases hparent d'' j hj with hp | hj
      · rw [hp]
        exact hthis.symm
      · exact h.rooted.parent_ne hdead hj
    · obtain ⟨hne, hnone⟩ := h.fresh d' hmem id' hold
      refine ⟨hne, ?_⟩
      intro d'' j hj
      rcases hparent d'' j hj with hp | hj
      · rw [hp]
        exact hne.symm
      · exact hnone d'' j hj

end Emitting

/-- Sections that change only references which the names do not stand for. -/
lemma Rooted.calm {ns : Namespace} {t t' : PathTable P} (h : Rooted ns t) (hwf : t'.WF)
    (hcalm : Calm t t') : Rooted ns t' :=
  of_backed (h.backed.calm hwf hcalm) h.placed h.loopless

/-- Requests keep all names rooted in careful steps. -/
lemma rooted_keeping : Keeping P carefully Rooted Emitting where
  backed := fun h => h.backed.weaken
  calm := fun h hwf hcalm => h.calm hwf hcalm
  inserted := fun h hp hins _ => h.inserted (.of_pathFor h.named hp) hins
  link := fun id newparent newname caller _ => rooted_link id newparent newname caller
  treeOp := rooted_treeOp
  listing := fun h hp => ⟨h, .of_pathFor h.named hp, fun _ hd => absurd hd List.not_mem_nil⟩
  emitted := fun h => h.rooted
  emittedCalm := fun h hwf hcalm => ⟨h.rooted.calm hwf hcalm, h.placed, h.fresh⟩
  fewer := fun h hds => ⟨h.rooted, h.placed, fun d hd => h.fresh d (hds d hd)⟩
  emit := fun h hfree hkey hins _ => h.made hfree hkey hins
  takeBack := fun h hd hfind => h.takeBack hd hfind

/-! ## Runs -/

/-- No name dangles, no number that is given out next is that of a directory with names, and every
node with a name has a path. -/
structure NoDangling (s : RtState (PathNodeFs.sig P)) : Prop where
  /-- Every name is bound in the root or in a node that is itself bound. -/
  parent : ∀ d i, s.fs.ns.find d = some i →
    d.parent = NodeId.ROOT ∨ ∃ d', s.fs.ns.find d' = some d.parent
  /-- Nothing is bound in the node that the inode table would make next. -/
  reissue : ∀ payload parent id t', s.table.insert payload parent = some (id, t') →
    ∀ d i, s.fs.ns.find d = some i → d.parent ≠ id
  /-- Every node with a name has a path. -/
  path : ∀ d i, s.fs.ns.find d = some i → ∃ p, s.fs.ns.pathFor i = some (some p)

lemma Rooted.noDangling {s : RtState (PathNodeFs.sig P)} (h : Rooted s.fs.ns s.table) :
    NoDangling s where
  parent := fun d i hd => h.placed d i hd
  reissue := by
    intro payload parent id t' hins d i hd
    exact h.parent_ne (h.wf.insert_dead hins) hd
  path := fun d i hd => h.path hd

/-- At the start no name is bound. -/
lemma rooted_new : Rooted (P := P) Namespace.new (Runtime.new (pathNodeFs P)).table := by
  have hstart : PathInv True (Runtime.new (pathNodeFs P)) PathView.empty := pathInv_new (P := P)
  have hfind : ∀ d, Namespace.new.find d = none := fun _ => rfl
  refine ⟨wf_new, hstart.linked, hstart.keyed, ?_, ?_⟩
  · intro d i hd
    rw [hfind] at hd
    cases hd
  · intro i hi
    obtain ⟨j, _, _, name, hd⟩ := Relation.TransGen.tail'_iff.mp hi
    rw [hfind] at hd
    cases hd

/-- In every sequential run whose steps take links of removed names and give names to known nodes
under the condition, whatever the inner filesystem does, no name dangles between the requests. -/
theorem no_dangling {c : Config (service (pathNodeFs P))}
    (hr : Run (fun c a => oneAtATime c a ∧ c.StepOk carefully a) (start (pathNodeFs P)) c)
    (hq : c.Quiet) : NoDangling c.state := by
  have hroot : Rooted (P := P) c.state.fs.ns c.state.table :=
    rooted_keeping.holds rooted_new hr hq
  exact hroot.noDangling

/-! ## Removing a directory -/

/-- Make the directory `d` and the file `d/x`. -/
private def nested : List (Action (service PathSample.fs)) :=
  PathSample.whole 0 19 (.makeOp (.mkdir NodeId.ROOT [100] 0 0) {}) ++
    PathSample.whole 1 19 (.makeOp (.mknod 2 [120] 0 0 0) {})

/-- Remove the file, then the directory. -/
private def emptiedFirst : List (Action (service PathSample.fs)) :=
  nested ++ PathSample.whole 2 8 (.treeOp (.unlink 2 [120]) {}) ++
    PathSample.whole 3 8 (.treeOp (.rmdir NodeId.ROOT [100]) {})

/-- The check behind the condition on steps: links are taken from nodes in which nothing is bound,
and known nodes get no names. -/
private def carefulCheck (c : Config (service PathSample.fs)) :
    Action (service PathSample.fs) → Bool
  | .step n _ =>
    match c.threads[n]? with
    | some ⟨_, _, .running (.act (.fs (.removeLink id)) _)⟩ =>
      BTreeMap.countWhere c.state.fs.ns.byName (fun d _ => d.parent = id) = 0
    | some ⟨_, _, .running (.act (.fs (.own i)) _)⟩ =>
      match (i : PathInstr PathSample.inner) with
      | .addAlias _ _ => false
      | _ => true
    | _ => true
  | _ => true

private lemma carefully_of_check (c : Config (service PathSample.fs))
    (a : Action (service PathSample.fs)) (h : carefulCheck c a = true) : c.StepOk carefully a := by
  cases a with
  | issue req => trivial
  | answer n => trivial
  | step n ch =>
    rintro req i ⟨m, k, ht⟩
    unfold carefulCheck at h
    simp only [ht] at h
    cases i with
    | fs i =>
      cases i with
      | removeLink id =>
        refine Or.inr ?_
        intro d j hd hp
        have hpos := BTreeMap.countWhere_pos (p := fun d _ => d.parent = id) hd (decide_eq_true hp)
        have hzero := of_decide_eq_true h
        omega
      | own i =>
        cases (i : PathInstr PathSample.inner) with
        | addAlias id d => cases h
        | _ => trivial
      | _ => trivial
    | _ => trivial

private lemma sequential_carefully_of_check (c : Config (service PathSample.fs))
    (a : Action (service PathSample.fs))
    (h : (PathSample.aloneCheck c a && carefulCheck c a) = true) :
    oneAtATime c a ∧ c.StepOk carefully a := by
  obtain ⟨halone, hcareful⟩ := Bool.and_eq_true_iff.mp h
  exact ⟨PathSample.oneAtATime_of_check c a halone, carefully_of_check c a hcareful⟩

/-- A directory is emptied before it is removed. -/
theorem no_dangling_emptied : ∃ c : Config (service PathSample.fs),
    Run oneAtATime (start PathSample.fs) c ∧ c.threads.length = 4 ∧ NoDangling c.state := by
  have hr := PathSample.run_after sequential_carefully_of_check emptiedFirst (by decide +kernel)
  have hq : (PathSample.after (fun c a => PathSample.aloneCheck c a && carefulCheck c a)
      emptiedFirst).Quiet := PathSample.quiet_of_all (by decide +kernel)
  exact ⟨_, hr.mono fun _ _ h => h.1, by decide +kernel, no_dangling hr hq⟩

/-- Remove the directory with the file in it, and forget it. -/
private def removedFirst : List (Action (service PathSample.fs)) :=
  nested ++ PathSample.whole 2 8 (.treeOp (.rmdir NodeId.ROOT [100]) {}) ++
    PathSample.whole 3 1 (.forget 2 1)

/-- A node with a name and no path. -/
lemma not_noDangling {s : RtState (PathNodeFs.sig P)} {d : Dentry} {i : NodeId}
    (hd : s.fs.ns.find d = some i) (hpath : s.fs.ns.pathFor i = some none) : ¬ NoDangling s := by
  intro h
  obtain ⟨p, hp⟩ := h.path d i hd
  rw [hpath] at hp
  cases hp

/-- After a directory was removed with a name in it and forgotten, the name is still bound, its
node has no path, and the next node that is made gets the number of the directory. -/
theorem dangling_after_rmdir : ∃ c : Config (service PathSample.fs),
    Run oneAtATime (start PathSample.fs) c ∧ c.Quiet ∧
    c.state.fs.ns.find ⟨2, [120]⟩ = some 3 ∧
      c.state.fs.ns.pathFor 3 = some none ∧
      c.state.table.alloc.map (fun r => r.1.1) = some 2 ∧ ¬ NoDangling c.state := by
  have hr := PathSample.run_after PathSample.oneAtATime_of_check removedFirst (by decide +kernel)
  have hq : (PathSample.after PathSample.aloneCheck removedFirst).Quiet :=
    PathSample.quiet_of_all (by decide +kernel)
  have hfind : (PathSample.after PathSample.aloneCheck removedFirst).state.fs.ns.find
      ⟨2, [120]⟩ =
      some 3 := by decide +kernel
  have hpath : (PathSample.after PathSample.aloneCheck removedFirst).state.fs.ns.pathFor 3 =
      some none := by decide +kernel
  have hnext : (PathSample.after PathSample.aloneCheck removedFirst).state.table.alloc.map
      (fun r => r.1.1) = some 2 := by decide +kernel
  generalize PathSample.after PathSample.aloneCheck removedFirst = c at hr hq hfind hpath hnext
  exact ⟨c, hr, hq, hfind, hpath, hnext, not_noDangling hfind hpath⟩

end TypedFuse
