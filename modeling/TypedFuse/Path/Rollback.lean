import TypedFuse.Path.Ascent
import TypedFuse.Path.Inserted
import TypedFuse.Path.Unlinked

/-!
# Names that are handed out while a listing runs

Lookups and listings of one directory run side by side under read guards.  A listing may bind a
name that another request finds and hands out, and then unbind it because the sink was full or the
inner filesystem has failed.  As long as no name is unbound that another request has found since it
was bound, every name that was handed out stays bound to its node, and the node has a path.

`Spans` says what such requests do to the namespace, and `SideBySide` ties it to their pasts.
-/

namespace TypedFuse

open Conc Conc.Service NodeTable TypedFuse.Runtime

variable {P : PathFilesystem} {n : ℕ}

/-! ## Nodes without names -/

/-- A node that is inserted and not recorded yet has no names. -/
def Unnamed (ns : Namespace) (T : Multiset PathToken) : Prop :=
  ∀ k i, Pending T k i → ns.names i = ∅

section Unnamed

variable {s s' : RtState (PathNodeFs.sig P)} {T T' : Multiset PathToken}

/-- Nobody but the holder of the namespace has a node that is not recorded yet. -/
lemma Guarded.not_pending {f : PathState P} {ns : Namespace} {phase : NsPhase}
    (h : Guarded f (pathView ({.sect ns phase} + T))) (k : ℕ) (i : NodeId) :
    ¬ Pending T k i := by
  rw [pathView_single] at h
  intro hp
  obtain ⟨x, hx, _⟩ := pending_iff.mp hp
  rw [h.sect_unique.1] at hx
  exact Multiset.notMem_zero x hx

lemma Guarded.not_pending_pair {f : PathState P} {m : Side} {ns ns' : Namespace} {phase : NsPhase}
    (h : Guarded f (pathView ({m.guard ns} + {.sect ns' phase} + T))) (k : ℕ) (i : NodeId) :
    ¬ Pending T k i := by
  rw [add_comm {m.guard ns}, add_assoc] at h
  intro hp
  exact h.not_pending k i (pending_add.mpr (Or.inr hp))

/-- An own step of the adapter that leaves the names alone. -/
lemma Unnamed.own {i : PathInstr P} {ch : Option P.Choice} {r : i.Resp}
    (h : Unnamed s.fs.ns T) (he : s.exec n i.rt ch = some (r, s'))
    (hi : (∀ k j d, i ≠ .record k j d) ∧ (∀ d, i ≠ .remove d) ∧
      ∀ j d, i ≠ .addAlias j d)
    (hpending : ∀ k i, Pending T' k i → Pending T k i) : Unnamed s'.fs.ns T' := by
  obtain ⟨c, f', hex, rfl⟩ := exec_own he
  intro k j hp
  exact (names_exec hi hex j).trans (h k j (hpending k j hp))

/-- Every instruction keeps nodes without names that are not recorded yet. -/
theorem PathContract.unnamed {i : RtInstr (PathNodeFs.sig P)} {C : Contract PathToken i.Resp}
    (hC : PathContract False i C) {ch : Option P.Choice} {r : i.Resp} {F g : Multiset PathToken}
    (hwf : s.table.WF) (he : s.exec n i ch = some (r, s'))
    (hi : PathInv False s (pathView (C.take + F))) (h : Unnamed s.fs.ns (C.take + F))
    (hgive : C.give r g) : Unnamed s'.fs.ns (g + F) := by
  cases hC with
  | runtime i hrt =>
    obtain rfl : g = 0 := hgive
    rw [(calm_exec hrt he).2]
    exact h
  | readLock | readUnlock | writeUnlock ns | nsUnlock ns =>
    obtain rfl := hgive
    exact h.own he (by simp) (by simp)
  | nodeId key | pathFor j | inner call =>
    obtain rfl := hgive
    exact h.own he (by simp) fun _ _ hp => hp
  | writeLock =>
    obtain ⟨ns, rfl⟩ := hgive
    exact h.own he (by simp) (by simp)
  | pathForExcl ns j | known ns d | find ns d =>
    obtain ⟨_, rfl⟩ := hgive
    exact h.own he (by simp) fun _ _ hp => hp
  | nsLock m ns =>
    obtain ⟨ns', _, rfl⟩ := hgive
    exact h.own he (by simp) (by simp)
  | takeKey m ns =>
    obtain ⟨ns', _, rfl⟩ := hgive
    exact h.own he (by simp) (by simp)
  | insert ns key parent =>
    obtain rfl := hgive
    obtain ⟨⟨j, t'⟩, hins, heq⟩ := Option.map_eq_some_iff.mp he
    obtain ⟨rfl, rfl⟩ := Prod.mk.inj heq
    intro k i hp
    rcases pending_add.mp hp with hp | hp
    · obtain ⟨_, rfl⟩ := NsPhase.inserted.inj (pending_sect.mp hp)
      exact (hi.linked.of_unlinked (count_of_dead (hwf.insert_dead hins) .links)).1
    · exact absurd hp (hi.guarded.not_pending k i)
  | record m ns key j d hd =>
    obtain rfl := hgive
    intro k i hp
    exact absurd (by simpa using hp) (hi.guarded.not_pending_pair k i)
  | remove m ns d =>
    obtain ⟨_, rfl⟩ := hgive
    intro k i hp
    refine absurd ?_ (hi.guarded.not_pending_pair k i)
    cases r with
    | none => simpa using hp
    | some j => simpa using hp
  | removeLink ns j =>
    obtain rfl := hgive
    obtain ⟨_, rfl⟩ := Prod.mk.inj (Option.some.inj he)
    intro k i hp
    exact h k i (by simpa using hp)
  | rebind ns j d hd =>
    obtain rfl := hgive
    intro k i hp
    exact absurd (by simpa using hp) (Guarded.not_pending_pair (m := .write) hi.guarded k i)
  | addAlias ns j d hj =>
    obtain ⟨lent, _, rfl⟩ := hgive
    intro k i hp
    exact absurd (by simpa using hp) (Guarded.not_pending_pair (m := .write) hi.guarded k i)
  | addLink ns j lent hlent =>
    obtain rfl := hgive
    obtain ⟨t', hadd, heq⟩ := Option.map_eq_some_iff.mp he
    obtain ⟨_, rfl⟩ := Prod.mk.inj heq
    intro k i hp
    exact h k i (by simpa using hp)
  | reparent j newParent =>
    obtain ⟨_, rfl⟩ := Prod.mk.inj (Option.some.inj he)
    obtain rfl : g = 0 := hgive
    exact h

/-- The logic of the adapter with what is known of nodes that are not recorded yet. -/
def unnamedLogic (P : PathFilesystem) : Logic (service (pathNodeFs P)) PathToken :=
  (pathLogic P False).strengthen fun s T => Unnamed s.fs.ns T

/-- A node that is not recorded yet has no names, in every configuration of every run. -/
lemma unnamed_holds {c : Config (service (pathNodeFs P))}
    (hr : Run anyAction (start (pathNodeFs P)) c) : (unnamedLogic P).Holds c := by
  have hsound : (unnamedLogic P).Sound anyAction (start (pathNodeFs P)) := by
    refine Logic.Sound.strengthen (path_sound fun h => h.elim) ?_ ?_ ?_
    · intro c n id req i k ch r s f C g hr _ he hC hi h hg _
      obtain ⟨_, hinv⟩ := (holds_any hr).inv
      exact hC.unnamed hinv.wf he hi h hg
    · intro c req s f _ hs h
      obtain rfl := Option.some.inj hs
      rw [show (pathLogic P False).init c.threads.length req + f = f from zero_add f]
      cases req with
      | _ => exact h
    · intro c n id req a g f _ _ hpost h
      obtain rfl : g = 0 := hpost
      rw [zero_add] at h
      exact h
  exact Logic.holds_of_run hsound
    (Logic.holds_nil ⟨pathInv_new, fun k i h => absurd h pending_zero⟩) hr

/-- A name is recorded for a node without names, and only if it is not bound. -/
lemma record_fresh {c : Config (service (pathNodeFs P))}
    (hr : Run anyAction (start (pathNodeFs P)) c) {req : Request} {key : ℕ} {id : NodeId}
    {d : Dentry} (hat : c.At n req (PathInstr.rt (.record key id d))) :
    c.state.fs.ns.find d = none ∧ c.state.fs.ns.names id = ∅ := by
  obtain ⟨m, C, f, hC, hi, hunnamed⟩ := (unnamed_holds hr).contract hat
  have hC' : PathContract False (PathInstr.rt (.record key id d)) C := hC
  cases hC' with
  | runtime _ h => exact absurd rfl (h _)
  | record side ns _ _ _ hfree =>
    have hns : ns = c.state.fs.ns :=
      PathInv.guarded hi |>.sectNs (ns, .inserted key id) (mem_sect_pathView.mpr (by simp))
    refine ⟨hns ▸ hfree, hunnamed key id ?_⟩
    simp

end Unnamed

/-! ## What lookups and listings do to the names -/

namespace Namespace

/-- The old names are as they were, and each new one is the only name of a node that had none. -/
structure Spans (this : NodeId) (ns₀ ns : Namespace) : Prop where
  old : ∀ d i, ns₀.find d = some i → ns.find d = some i
  names : ∀ i, (ns₀.names i).Nonempty → ns.names i = ns₀.names i
  new : ∀ d i, ns.find d = some i → ns₀.find d = none →
    d.parent = this ∧ ns.names i = {d} ∧ ns₀.names i = ∅

namespace Spans

variable {this : NodeId} {ns₀ ns ns' : Namespace} {d : Dentry} {i key : ℕ}

lemma refl (this : NodeId) (ns : Namespace) : Spans this ns ns := by
  refine ⟨fun _ _ h => h, fun _ _ => rfl, ?_⟩
  intro d i h hnone
  rw [hnone] at h
  cases h

lemma congr (h : Spans this ns₀ ns) (hfind : ∀ d, ns'.find d = ns.find d)
    (hnames : ∀ i, ns'.names i = ns.names i) : Spans this ns₀ ns' := by
  refine ⟨?_, ?_, ?_⟩
  · intro d i hd
    rw [hfind]
    exact h.old d i hd
  · intro i hi
    rw [hnames]
    exact h.names i hi
  · intro d i hd hnone
    rw [hfind] at hd
    rw [hnames]
    exact h.new d i hd hnone

/-- A free name is recorded for a node without names. -/
lemma record (h : Spans this ns₀ ns) (hfree : ns.find d = none) (hbare : ns.names i = ∅)
    (hd : d.parent = this) (key : ℕ) : Spans this ns₀ (ns.record key i d) := by
  have hfind : ∀ d', (ns.record key i d).find d' = if d' = d then some i else ns.find d' :=
    fun d' => find_addAlias
  have hnames : ∀ j, (ns.record key i d).names j =
      if j = i then insert d (ns.names i) else ns.names j := fun j => names_addAlias
  refine ⟨?_, ?_, ?_⟩
  · intro d' j hd'
    have hold := h.old d' j hd'
    rw [hfind, if_neg]
    · exact hold
    · rintro rfl
      rw [hfree] at hold
      cases hold
  · intro j hj
    have hsame := h.names j hj
    rw [hnames, if_neg]
    · exact hsame
    · rintro rfl
      rw [hbare] at hsame
      rw [← hsame] at hj
      exact Finset.not_nonempty_empty hj
  · intro d' j hd' hnone
    rw [hfind] at hd'
    split at hd'
    · next heq =>
      obtain rfl := Option.some.inj hd'
      subst heq
      refine ⟨hd, ?_, ?_⟩
      · rw [hnames, if_pos rfl, hbare, insert_empty_eq]
      · by_contra hne
        have hsame := h.names i (Finset.nonempty_iff_ne_empty.mpr hne)
        rw [hbare] at hsame
        exact hne hsame.symm
    · obtain ⟨hparent, hsingle, hempty⟩ := h.new d' j hd' hnone
      refine ⟨hparent, ?_, hempty⟩
      rw [hnames, if_neg]
      · exact hsingle
      · rintro rfl
        rw [hbare] at hsingle
        exact Finset.singleton_ne_empty d' hsingle.symm

/-- A new name is removed. -/
lemma remove (h : Spans this ns₀ ns) (hd : ns.find d = some i) (hnew : ns₀.find d = none) :
    Spans this ns₀ (ns.remove d).2 := by
  obtain ⟨_, hsingle, hempty⟩ := h.new d i hd hnew
  have hnames : ∀ j, j ≠ i → (ns.remove d).2.names j = ns.names j := by
    intro j hj
    rw [names_remove hd, if_neg hj]
  refine ⟨?_, ?_, ?_⟩
  · intro d' j hd'
    rw [find_remove, if_neg]
    · exact h.old d' j hd'
    · rintro rfl
      rw [hnew] at hd'
      cases hd'
  · intro j hj
    rw [hnames]
    · exact h.names j hj
    · rintro rfl
      rw [hempty] at hj
      exact Finset.not_nonempty_empty hj
  · intro d' j hd' hnone
    rw [find_remove] at hd'
    split at hd'
    · cases hd'
    · next hne =>
      obtain ⟨hparent, hsingle', hempty'⟩ := h.new d' j hd' hnone
      refine ⟨hparent, ?_, hempty'⟩
      rw [hnames]
      · exact hsingle'
      · rintro rfl
        rw [hsingle] at hsingle'
        exact hne (Finset.singleton_injective hsingle').symm

/-- What had a path has it still. -/
lemma pathOf (h : Spans this ns₀ ns) {p : Path} (hp : ns₀.PathOf i p) : ns.PathOf i p := by
  induction hp with
  | root => exact .root
  | step hi hd _ ih =>
    refine .step hi ?_ ih
    rw [firstAlias_congr (h.names _ ⟨_, mem_of_firstAlias hd⟩)]
    exact hd

end Spans

/-- A directory has a path, and so have the nodes that its names are bound to. -/
structure Reached (ns : Namespace) (this : NodeId) : Prop where
  dir : ∃ p, ns.pathFor this = some (some p)
  bound : ∀ name i, ns.find ⟨this, name⟩ = some i → ∃ p, ns.pathFor i = some (some p)

/-- Then the nodes of all its names, old and new, still have paths. -/
lemma Spans.path {this : NodeId} {ns₀ ns : Namespace} (h : Spans this ns₀ ns)
    (hreached : ns₀.Reached this) {name : Name} {i : NodeId}
    (hd : ns.find ⟨this, name⟩ = some i) : ∃ p, ns.pathFor i = some (some p) := by
  cases hold : ns₀.find ⟨this, name⟩ with
  | some j =>
    obtain rfl : j = i := Option.some.inj ((h.old _ _ hold).symm.trans hd)
    obtain ⟨p, hp⟩ := hreached.bound name j hold
    exact ⟨p, pathFor_eq_some_iff.mpr (h.pathOf (pathFor_eq_some_iff.mp hp))⟩
  | none =>
    obtain ⟨p, hp⟩ := hreached.dir
    by_cases hi : i = NodeId.ROOT
    · rw [hi]
      exact ⟨Path.root, pathFor_eq_some_iff.mpr .root⟩
    · have halias : ns.firstAlias i = some ⟨this, name⟩ := by
        unfold firstAlias
        simp [(h.new _ i hd hold).2.1]
      have hdir : ns.PathOf (Dentry.mk this name).parent p :=
        h.pathOf (pathFor_eq_some_iff.mp hp)
      exact ⟨_, pathFor_eq_some_iff.mpr (.step hi halias hdir)⟩

end Namespace

/-- The names and who has bound them are as they were, and none that was found is forgotten. -/
structure Unmoved (f f' : PathState P) : Prop where
  find : ∀ d, f'.ns.find d = f.ns.find d
  names : ∀ i, f'.ns.names i = f.ns.names i
  binder : f'.hist.binder = f.hist.binder
  found : f.hist.found ⊆ f'.hist.found

lemma Unmoved.of_eq {f f' : PathState P} (hns : f'.ns = f.ns) (hhist : f'.hist = f.hist) :
    Unmoved f f' :=
  ⟨fun d => by rw [hns], fun i => by rw [hns], by rw [hhist], by rw [hhist]⟩

section Steps

variable {s s' : RtState (PathNodeFs.sig P)} {d : Dentry} {i : NodeId}

/-- An own step of the adapter that neither binds nor unbinds a name. -/
lemma unmoved_own {j : PathInstr P} {f f' : PathState P} {c : P.Choice} {r : j.Resp}
    (hj : NameFree j.rt) (he : f.exec n j c = some (r, f')) : Unmoved f f' := by
  cases j with
  | record | remove | addAlias => exact absurd hj not_false
  | readLock | writeLock | nsLock | nodeId key =>
    simp only [PathState.exec] at he
    split at he
    · cases he
    · obtain ⟨_, rfl⟩ := Prod.mk.inj (Option.some.inj he)
      exact .of_eq rfl rfl
  | readUnlock | writeUnlock | nsUnlock | find d =>
    obtain ⟨_, rfl⟩ := Prod.mk.inj (Option.some.inj he)
    exact .of_eq rfl rfl
  | known d =>
    obtain ⟨_, rfl⟩ := Prod.mk.inj (Option.some.inj he)
    refine ⟨fun _ => rfl, fun _ => rfl, ?_, ?_⟩
    · change (f.hist.know n d (f.ns.find d)).binder = _
      cases f.ns.find d with
      | none => rfl
      | some id => rfl
    · change _ ⊆ (f.hist.know n d (f.ns.find d)).found
      cases f.ns.find d with
      | none => exact subset_rfl
      | some id =>
        change f.hist.found ⊆ if f.hist.binder.lookup d = some n then f.hist.found else
          insert d f.hist.found
        split
        · exact subset_rfl
        · exact Finset.subset_insert d _
  | pathFor id =>
    simp only [PathState.exec] at he
    split at he
    · cases he
    · obtain ⟨_, _, heq⟩ := Option.map_eq_some_iff.mp he
      obtain ⟨_, rfl⟩ := Prod.mk.inj heq
      exact .of_eq rfl rfl
  | takeKey =>
    obtain ⟨⟨k, ns⟩, hk, heq⟩ := Option.map_eq_some_iff.mp he
    obtain ⟨_, rfl⟩ := Prod.mk.inj heq
    unfold Namespace.takeKey at hk
    split at hk
    · obtain ⟨_, rfl⟩ := Prod.mk.inj (Option.some.inj hk)
      exact ⟨fun _ => rfl, fun _ => rfl, rfl, subset_rfl⟩
    · cases hk
  | inner call =>
    obtain ⟨_, _, heq⟩ := Option.map_eq_some_iff.mp he
    obtain ⟨_, rfl⟩ := Prod.mk.inj heq
    exact .of_eq rfl rfl

/-- An instruction that neither binds nor unbinds a name. -/
lemma unmoved_exec {i : RtInstr (PathNodeFs.sig P)} {ch : Option P.Choice} {r : i.Resp}
    (hi : NameFree i) (he : s.exec n i ch = some (r, s')) : Unmoved s.fs s'.fs := by
  by_cases hfs : ∃ j, i = .fs j
  · obtain ⟨j, rfl⟩ := hfs
    cases j with
    | own j =>
      obtain ⟨c, f', hex, rfl⟩ := exec_own (P := P) he
      exact unmoved_own hi hex
    | get | insert | addLink =>
      obtain ⟨_, _, heq⟩ := Option.map_eq_some_iff.mp he
      obtain ⟨_, rfl⟩ := Prod.mk.inj heq
      exact .of_eq rfl rfl
    | contains | reparent | removeLink =>
      obtain ⟨_, rfl⟩ := Prod.mk.inj (Option.some.inj he)
      exact .of_eq rfl rfl
    | dropRef ref =>
      change (if ref.key ∈ s.hist.fsRefs then some ((), _) else none) = some (r, s') at he
      split at he
      · obtain ⟨_, rfl⟩ := Prod.mk.inj (Option.some.inj he)
        exact .of_eq rfl rfl
      · cases he
  · rw [(calm_exec (fun j hj => hfs ⟨j, hj⟩) he).2]
    exact .of_eq rfl rfl

lemma not_nameFree {i : RtInstr (PathNodeFs.sig P)} (h : ¬ NameFree i) :
    (∃ key id d, i = PathInstr.rt (.record key id d)) ∨
      (∃ d, i = PathInstr.rt (.remove d)) ∨ ∃ id d, i = PathInstr.rt (.addAlias id d) := by
  unfold NameFree at h
  split at h
  · next j =>
    split at h
    · exact Or.inl ⟨_, _, _, rfl⟩
    · exact Or.inr (Or.inl ⟨_, rfl⟩)
    · exact Or.inr (Or.inr ⟨_, _, rfl⟩)
    · exact absurd trivial h
  · exact absurd trivial h

/-- The name is bound to the node, and the thread has bound it itself or the name is noted as
found. -/
def Knows (f : PathState P) (m : ℕ) (d : Dentry) (i : NodeId) : Prop :=
  f.ns.find d = some i ∧ (d ∈ f.hist.found ∨ f.hist.binder.lookup d = some m)

/-- Who finds a name bound knows it. -/
lemma knows_known {ch : Option P.Choice} (he : s.exec n (PathInstr.rt (.known d)) ch =
      some (some i, s')) : Knows s'.fs n d i := by
  obtain ⟨c, f', hex, rfl⟩ := exec_own he
  obtain ⟨hfind, rfl⟩ := Prod.mk.inj (Option.some.inj hex)
  refine ⟨hfind, ?_⟩
  change d ∈ (s.fs.hist.know n d (s.fs.ns.find d)).found ∨
    (s.fs.hist.know n d (s.fs.ns.find d)).binder.lookup d = some n
  rw [hfind]
  by_cases hb : s.fs.hist.binder.lookup d = some n
  · exact Or.inr hb
  · refine Or.inl ?_
    change d ∈ if s.fs.hist.binder.lookup d = some n then s.fs.hist.found else
      insert d s.fs.hist.found
    rw [if_neg hb]
    exact Finset.mem_insert_self d _

end Steps

/-- The namespace and the history, when the threads from `k₀` on have the given pasts: what they
have inserted is new, bound and theirs, and what they remember they know. -/
structure SideBySide (this : NodeId) (k₀ : ℕ) (ns₀ : Namespace) (f : PathState P)
    (past : ℕ → List (PathEvent P)) : Prop where
  spans : Namespace.Spans this ns₀ f.ns
  nodup : ∀ m, k₀ ≤ m → (inserted (past m)).Nodup
  held : ∀ m d, k₀ ≤ m → d ∈ inserted (past m) → ns₀.find d = none ∧
    (∃ i, f.ns.find d = some i) ∧ f.hist.binder.lookup d = some m
  kept : ∀ m d i es₁ e es₂, k₀ ≤ m → past m = es₁ ++ e :: es₂ → Resolves d i e →
    Lasts d es₂ → Knows f m d i ∧ ∀ e' ∈ es₂, ¬ Binds d e'.instr

/-- The pasts after one more instruction of a thread. -/
def addEvent (past : ℕ → List (PathEvent P)) (e : PathEvent P) (m : ℕ) : List (PathEvent P) :=
  if m = e.thread then past m ++ [e] else past m

namespace SideBySide

variable {this : NodeId} {k₀ : ℕ} {ns₀ : Namespace} {f f' : PathState P}
  {past : ℕ → List (PathEvent P)} {d : Dentry} {i : NodeId} {e : PathEvent P}

/-- What a thread remembers after one more instruction: what it has just resolved, or what it has
remembered before, if the instruction keeps that. -/
lemma kept_addEvent (h : SideBySide this k₀ ns₀ f past)
    (hnew : ∀ d i, Resolves d i e → Knows f' e.thread d i)
    (hold : ∀ m d i, Knows f m d i → (m = e.thread → ¬ Unbinds d e.instr) →
      Knows f' m d i ∧ ¬ Binds d e.instr)
    (m : ℕ) (d : Dentry) (i : NodeId) (es₁ : List (PathEvent P)) (e₁ : PathEvent P)
    (es₂ : List (PathEvent P)) (hm : k₀ ≤ m)
    (hes : addEvent past e m = es₁ ++ e₁ :: es₂) (hr : Resolves d i e₁)
    (hl : Lasts d es₂) : Knows f' m d i ∧ ∀ e' ∈ es₂, ¬ Binds d e'.instr := by
  unfold addEvent at hes
  split at hes
  · next hthread =>
    rcases split_snoc hes with ⟨_, rfl, rfl⟩ | ⟨es₃, hpast, rfl⟩
    · rw [hthread]
      exact ⟨hnew d i hr, fun e' he' => nomatch he'⟩
    · obtain ⟨hknows, hbinds⟩ := h.kept m d i es₁ e₁ es₃ hm hpast hr hl.of_append
      obtain ⟨hknows', hlast⟩ := hold m d i hknows fun _ => hl.last hbinds
      refine ⟨hknows', ?_⟩
      intro e' he'
      rcases List.mem_append.mp he' with he' | he'
      · exact hbinds e' he'
      · rw [List.mem_singleton.mp he']
        exact hlast
  · next hthread =>
    obtain ⟨hknows, hbinds⟩ := h.kept m d i es₁ e₁ es₂ hm hes hr hl
    exact ⟨(hold m d i hknows fun heq => absurd heq hthread).1, hbinds⟩

/-- What a thread has inserted after one more instruction. -/
lemma inserted_addEvent (past : ℕ → List (PathEvent P)) (e : PathEvent P) (m : ℕ) :
    inserted (addEvent past e m) =
      if m = e.thread then insertedAfter (inserted (past m)) e.instr else inserted (past m) := by
  unfold addEvent
  split
  · exact inserted_snoc _ _
  · rfl

/-- An instruction that neither binds nor unbinds a name. -/
lemma nameFree (h : SideBySide this k₀ ns₀ f past) (he : NameFree e.instr) (hf : Unmoved f f')
    (hnew : ∀ d i, Resolves d i e → Knows f' e.thread d i) :
    SideBySide this k₀ ns₀ f' (addEvent past e) := by
  have hins : ∀ m, inserted (addEvent past e m) = inserted (past m) := by
    intro m
    rw [inserted_addEvent, he.insertedAfter, ite_self]
  refine ⟨h.spans.congr hf.find hf.names, ?_, ?_, h.kept_addEvent hnew ?_⟩
  · intro m hm
    rw [hins]
    exact h.nodup m hm
  · intro m d hm hd
    rw [hins] at hd
    rw [hf.find, hf.binder]
    exact h.held m d hm hd
  · rintro m d i ⟨hfind, hmine⟩ _
    refine ⟨⟨(hf.find d).trans hfind, ?_⟩, he.not_binds d⟩
    rw [hf.binder]
    exact hmine.imp (fun hd => hf.found hd) id

/-- A free name is bound to a node without names. -/
lemma record (h : SideBySide this k₀ ns₀ f past) {m key : ℕ} (hparent : d.parent = this)
    (hfree : f.ns.find d = none) (hbare : f.ns.names i = ∅) (born : BTreeMap ℕ (Birth P))
    (resolved : List (ℕ × Dentry × NodeId)) :
    SideBySide this k₀ ns₀
      { f with
        ns := f.ns.record key i d
        hist := ⟨f.hist.binder.insert d m, f.hist.found.erase d, resolved, born⟩ }
      (addEvent past ⟨m, PathInstr.rt (.record key i d), ()⟩) := by
  have hne : ∀ {d' j}, f.ns.find d' = some j → d' ≠ d := by
    rintro d' j hd' rfl
    rw [hfree] at hd'
    cases hd'
  have hfind : ∀ d', (f.ns.record key i d).find d' = if d' = d then some i else f.ns.find d' :=
    fun d' => Namespace.find_addAlias
  have hbinder : ∀ d', (f.hist.binder.insert d m).lookup d' =
      if d' = d then some m else f.hist.binder.lookup d' :=
    fun d' => BTreeMap.lookup_insert_ite f.hist.binder d d' m
  have hnone : ns₀.find d = none := by
    cases hold : ns₀.find d with
    | none => rfl
    | some j =>
      rw [h.spans.old d j hold] at hfree
      cases hfree
  refine ⟨h.spans.record hfree hbare hparent key, ?_, ?_, h.kept_addEvent ?_ ?_⟩
  · intro m' hm'
    rw [inserted_addEvent]
    split
    · refine Multiset.nodup_cons.mpr ⟨?_, h.nodup m' hm'⟩
      intro hd
      obtain ⟨_, ⟨j, hj⟩, _⟩ := h.held m' d hm' hd
      exact hne hj rfl
    · exact h.nodup m' hm'
  · intro m' d' hm' hd'
    change ns₀.find d' = none ∧ (∃ j, (f.ns.record key i d).find d' = some j) ∧
      (f.hist.binder.insert d m).lookup d' = some m'
    rw [hfind, hbinder]
    have hold : d' ∈ inserted (past m') → ns₀.find d' = none ∧
        (∃ j, (if d' = d then some i else f.ns.find d') = some j) ∧
          (if d' = d then some m else f.hist.binder.lookup d') = some m' := by
      intro hin
      obtain ⟨hnone', ⟨j, hj⟩, hmine⟩ := h.held m' d' hm' hin
      rw [if_neg (hne hj), if_neg (hne hj)]
      exact ⟨hnone', ⟨j, hj⟩, hmine⟩
    rw [inserted_addEvent] at hd'
    split at hd'
    · next hthread =>
      rcases Multiset.mem_cons.mp hd' with rfl | hd'
      · rw [if_pos rfl, if_pos rfl, hthread]
        exact ⟨hnone, ⟨i, rfl⟩, rfl⟩
      · exact hold hd'
    · exact hold hd'
  · intro d' j hr
    cases hr
    change (f.ns.record key i d).find d = some i ∧
      (_ ∨ (f.hist.binder.insert d m).lookup d = some m)
    rw [hfind, hbinder, if_pos rfl, if_pos rfl]
    exact ⟨rfl, Or.inr rfl⟩
  · rintro m' d' j ⟨hj, hmine⟩ _
    refine ⟨?_, ?_⟩
    · change (f.ns.record key i d).find d' = some j ∧
        (d' ∈ f.hist.found.erase d ∨ (f.hist.binder.insert d m).lookup d' = some m')
      rw [hfind, hbinder, if_neg (hne hj), if_neg (hne hj)]
      exact ⟨hj, hmine.imp (fun hd' => Finset.mem_erase.mpr ⟨hne hj, hd'⟩) id⟩
    rintro ⟨key', id', hi⟩
    cases hi
    exact hne hj rfl

/-- A thread unbinds a name that it has inserted and that no other one has found. -/
lemma remove (h : SideBySide this k₀ ns₀ f past) {m : ℕ} {r : Option NodeId} (hm : k₀ ≤ m)
    (hd : d ∈ inserted (past m)) (hspared : d ∉ f.hist.found) :
    SideBySide this k₀ ns₀ { f with ns := (f.ns.remove d).2 }
      (addEvent past ⟨m, PathInstr.rt (.remove d), r⟩) := by
  obtain ⟨hnone, ⟨i, hi⟩, hmine⟩ := h.held m d hm hd
  have hfind : ∀ {d'}, d' ≠ d → (f.ns.remove d).2.find d' = f.ns.find d' := by
    intro d' hne
    rw [Namespace.find_remove, if_neg hne]
  refine ⟨h.spans.remove hi hnone, ?_, ?_, h.kept_addEvent ?_ ?_⟩
  · intro m' hm'
    rw [inserted_addEvent]
    split
    · exact (h.nodup m' hm').erase d
    · exact h.nodup m' hm'
  · intro m' d' hm' hd'
    change ns₀.find d' = none ∧ (∃ j, (f.ns.remove d).2.find d' = some j) ∧ _
    have hne : d' ≠ d ∧ d' ∈ inserted (past m') := by
      rw [inserted_addEvent] at hd'
      split at hd'
      · exact (h.nodup m' hm').mem_erase_iff.mp hd'
      · next hthread =>
        refine ⟨?_, hd'⟩
        rintro rfl
        obtain ⟨_, _, hmine'⟩ := h.held m' d' hm' hd'
        exact hthread (Option.some.inj (hmine'.symm.trans hmine))
    rw [hfind hne.1]
    exact h.held m' d' hm' hne.2
  · intro d' j hr
    cases hr
  · rintro m' d' j ⟨hj, hfound⟩ hmay
    have hne : d' ≠ d := by
      rintro rfl
      rcases hfound with hfound | hmine'
      · exact hspared hfound
      · exact hmay (Option.some.inj (hmine'.symm.trans hmine)) rfl
    refine ⟨⟨(hfind hne).trans hj, hfound⟩, ?_⟩
    rintro ⟨key, id, heq⟩
    cases heq

end SideBySide

/-! ## Runs -/

/-- Only lookups and listings of the directory are issued. -/
def EnumeratesOnly (this : NodeId) (_ : Config (service (pathNodeFs P))) :
    Action (service (pathNodeFs P)) → Prop
  | .issue req => req.Enumerates this
  | _ => True

/-- No name is unbound that another thread has found since it was bound. -/
def SparesFound (c : Config (service (pathNodeFs P))) : Action (service (pathNodeFs P)) → Prop
  | .step n _ => ∀ req d, c.At n req (PathInstr.rt (.remove d)) → d ∉ c.state.fs.hist.found
  | _ => True

/-- The pasts of the threads after a trace. -/
lemma eventsOf_addEvent (es : List (PathEvent P)) (e : PathEvent P) :
    (fun m => eventsOf m (es ++ [e])) = addEvent (fun m => eventsOf m es) e := by
  funext m
  unfold addEvent
  split
  · next h =>
    rw [h]
    exact eventsOf_snoc_self e.thread e.instr e.resp
  · next h => exact eventsOf_snoc_ne h e.instr e.resp

section Runs

variable {c₀ c : Config (service (pathNodeFs P))} {es₀ es : List (PathEvent P)} {this : NodeId}

/-- The old requests have been answered, and the new ones are about the directory. -/
lemma enumerating_threads {allow : Config (service (pathNodeFs P)) →
      Action (service (pathNodeFs P)) → Prop}
    (hallow : ∀ c a, allow c a → EnumeratesOnly this c a) (hq : c₀.Quiet)
    (hr : Run allow c₀ c) :
    c₀.threads.length ≤ c.threads.length ∧ ∀ m t, c.threads[m]? = some t →
      (m < c₀.threads.length → ∃ a, t.phase = .done a) ∧
      (c₀.threads.length ≤ m → t.req.Enumerates this) := by
  -- a thread keeps its request, and one that is done stays so
  have hset : ∀ {ts : List (Thread (service (pathNodeFs P)))} {n : ℕ} {t t' : Thread _},
      ts[n]? = some t → (∃ p, t.phase = .running p) → t'.req = t.req →
      (∀ m u, ts[m]? = some u → (m < c₀.threads.length → ∃ a, u.phase = .done a) ∧
        (c₀.threads.length ≤ m → u.req.Enumerates this)) →
      ∀ m u, (ts.set n t')[m]? = some u →
        (m < c₀.threads.length → ∃ a, u.phase = .done a) ∧
        (c₀.threads.length ≤ m → u.req.Enumerates this) := by
    intro ts n t t' ht hrunning hreq h m u hu
    rw [List.getElem?_set] at hu
    split at hu
    · next hnm =>
      subst hnm
      split at hu
      · obtain rfl := Option.some.inj hu
        obtain ⟨hdone, henum⟩ := h n t ht
        refine ⟨?_, fun hle => hreq ▸ henum hle⟩
        intro hlt
        obtain ⟨a, ha⟩ := hdone hlt
        obtain ⟨p, hp⟩ := hrunning
        rw [ha] at hp
        cases hp
      · cases hu
    · exact h m u hu
  induction hr with
  | refl =>
    refine ⟨le_rfl, ?_⟩
    intro m t ht
    obtain ⟨hlt, _⟩ := List.getElem?_eq_some_iff.mp ht
    exact ⟨fun _ => hq t (List.mem_of_getElem? ht), fun hle => absurd hlt (Nat.not_lt.mpr hle)⟩
  | tail a _ ha hn ih =>
    obtain ⟨hlen, h⟩ := ih
    cases a with
    | issue req =>
      obtain ⟨s, _, rfl⟩ := next_issue hn
      refine ⟨by simp; omega, ?_⟩
      intro m t ht
      rw [List.getElem?_append] at ht
      split at ht
      · exact h m t ht
      · rw [List.getElem?_singleton] at ht
        split at ht
        · obtain rfl := Option.some.inj ht
          exact ⟨fun hlt => by omega, fun _ => hallow _ _ ha⟩
        · cases ht
    | step n ch =>
      obtain ⟨id, req, i, k, r, s, ht, _, rfl⟩ := next_step hn
      exact ⟨by simpa using hlen, hset ht ⟨_, rfl⟩ rfl h⟩
    | answer n =>
      obtain ⟨id, req, a, ht, rfl⟩ := next_answer hn
      exact ⟨by simpa using hlen, hset ht ⟨_, rfl⟩ rfl h⟩

/-- What a thread may do if its request is about the directory. -/
def MayEnumerate (this : NodeId) (_ : ℕ) (req : Request) (past : List (PathEvent P))
    (i : RtInstr (PathNodeFs.sig P)) : Prop :=
  req.Enumerates this → Orderly this past i

/-- Such a thread remembers the names in its answer. -/
def RemembersHanded (this : NodeId) (_ : ℕ) (req : Request) (a : Fallible Reply)
    (past : List (PathEvent P)) : Prop :=
  req.Enumerates this → ∀ x ∈ handedNames req a, Remembers x.1 x.2 past

lemma tracks_orderly (this : NodeId) (n : ℕ) (req : Request) :
    Tracks (S := service (pathNodeFs P)) (MayEnumerate this n req) n []
      (serve (pathNodeFs P) req) (RemembersHanded this n req) := by
  by_cases hreq : req.Enumerates this
  · have hsame : MayEnumerate (P := P) this n req = Orderly this := by
      funext past i
      exact propext (imp_iff_right hreq)
    refine Eq.mpr (congrArg (fun may => Tracks (S := service (pathNodeFs P)) may n []
      (serve (pathNodeFs P) req) (RemembersHanded this n req)) hsame) ?_
    exact (goes_serve hreq).mono fun a past h _ => h
  · exact (Tracks.of_forall (fun _ _ h => absurd h hreq) _).mono fun _ _ _ h => absurd h hreq

/-- Lookups and listings of a directory that spare the names which others have found. -/
lemma sideBySide_of_traced (h₀ : Traced anyAction (start (pathNodeFs P)) c₀ es₀)
    (hq : c₀.Quiet)
    (h : Traced (fun c a => EnumeratesOnly this c a ∧ SparesFound c a) c₀ c es) :
    SideBySide this c₀.threads.length c₀.state.fs.ns c.state.fs
      fun m => eventsOf m (es₀ ++ es) := by
  have htracked : ∀ {c es},
      Traced (fun c a => EnumeratesOnly this c a ∧ SparesFound c a) c₀ c es →
      Tracked (MayEnumerate this) (RemembersHanded this) c (es₀ ++ es) :=
    fun h => (h₀.trans h.any).tracked rfl fun n req => tracks_orderly this n req
  induction h with
  | refl =>
    have hfresh : ∀ m, c₀.threads.length ≤ m → eventsOf m (es₀ ++ []) = [] :=
      fun m hm => (htracked .refl).eventsOf_fresh hm
    refine ⟨.refl this _, ?_, ?_, ?_⟩
    · intro m hm
      rw [hfresh m hm]
      exact Multiset.nodup_zero
    · intro m d hm hd
      rw [hfresh m hm] at hd
      exact absurd hd (Multiset.notMem_zero d)
    · intro m d i es₁ e es₂ hm hes
      rw [hfresh m hm] at hes
      simp at hes
  | issue req _ _ hn ih =>
    obtain ⟨s, hs, rfl⟩ := next_issue hn
    obtain rfl := Option.some.inj hs
    cases req with
    | _ => exact ih
  | @step c es m id req i k r s ch htr ha ht he ih =>
    have hr : Run anyAction (start (pathNodeFs P)) c := h₀.run.trans htr.run.any
    have htrk := htracked htr
    obtain rfl : id = m := htrk.numbered m _ ht
    obtain ⟨hdone, hreq⟩ := (enumerating_threads (fun _ _ h => h.1) hq htr.run).2 id _ ht
    have hnew : c₀.threads.length ≤ id := by
      by_contra hlt
      obtain ⟨a, hphase⟩ := hdone (Nat.lt_of_not_le hlt)
      cases hphase
    have horderly : Orderly this (eventsOf id (es₀ ++ es)) i :=
      (htrk.running id id req _ ht).1 (hreq hnew)
    rw [← List.append_assoc, eventsOf_addEvent]
    by_cases hfree : NameFree i
    · refine ih.nameFree hfree (unmoved_exec hfree he) ?_
      intro d j hres
      generalize heq : (⟨id, i, r⟩ : PathEvent P) = e at hres
      cases hres with
      | found n =>
        cases heq
        exact knows_known he
      | made n key =>
        cases heq
        exact absurd hfree not_false
    · rcases not_nameFree hfree with ⟨key, j, d, rfl⟩ | ⟨d, rfl⟩ | ⟨j, d, rfl⟩
      · obtain ⟨hnone, hbare⟩ := record_fresh hr ⟨id, k, ht⟩
        obtain ⟨c', f', hex, rfl⟩ := exec_own (P := P) he
        obtain ⟨_, rfl⟩ := Prod.mk.inj (Option.some.inj hex)
        exact ih.record horderly hnone hbare _ _
      · obtain ⟨c', f', hex, rfl⟩ := exec_own (P := P) he
        obtain ⟨_, rfl⟩ := Prod.mk.inj (Option.some.inj hex)
        exact ih.remove hnew horderly (ha.2 req d ⟨id, k, ht⟩)
      · exact absurd horderly not_false
  | answer m _ _ hn ih =>
    obtain ⟨id, req, a, _, rfl⟩ := next_answer hn
    exact ih

/-- The names that such a request hands out are names of the directory. -/
lemma handedNames_parent {req : Request} {a : Fallible Reply} (hreq : req.Enumerates this)
    {x : Dentry × NodeId} (hx : x ∈ handedNames req a) : x.1.parent = this := by
  unfold handedNames at hx
  split at hx
  · rw [List.mem_singleton.mp hx]
    exact hreq
  · obtain ⟨e, _, rfl⟩ := List.mem_map.mp hx
    exact hreq
  · cases hx

/-- In a run of lookups and listings of a directory in which no name is unbound that another thread
has found since it was bound, every name that was handed out stays bound to its node.  The node has
a path, if the directory and the nodes of its names had paths at the start. -/
theorem handed_names_stay (hr₀ : Run anyAction (start (pathNodeFs P)) c₀) (hq : c₀.Quiet)
    (hr : Run (fun c a => EnumeratesOnly this c a ∧ SparesFound c a) c₀ c) {n t : ℕ}
    {req : Request} {a : Fallible Reply} (hn : c₀.threads.length ≤ n)
    (ht : c.threads[n]? = some ⟨t, req, .done a⟩) :
    ∀ x ∈ handedNames req a, c.state.fs.ns.find x.1 = some x.2 ∧
      (c₀.state.fs.ns.Reached this → ∃ p, c.state.fs.ns.pathFor x.2 = some (some p)) := by
  obtain ⟨es₀, h₀⟩ := hr₀.traced
  obtain ⟨es, h⟩ := hr.traced
  have hside := sideBySide_of_traced h₀ hq h
  have htracked := (h₀.trans h.any).tracked rfl fun n req => tracks_orderly this n req
  obtain ⟨_, henum⟩ := (enumerating_threads (fun _ _ h => h.1) hq hr).2 n _ ht
  intro x hx
  -- the thread has resolved the name and not unbound it since
  obtain ⟨es₁, e, es₂, hes, hres, hlasts⟩ := htracked.done n t req a ht (henum hn) x hx
  obtain ⟨⟨hfind, _⟩, _⟩ := hside.kept n x.1 x.2 es₁ e es₂ hn hes hres hlasts
  refine ⟨hfind, fun hreached => ?_⟩
  have hparent := handedNames_parent (henum hn) hx
  obtain ⟨⟨parent, name⟩, i⟩ := x
  obtain rfl : parent = this := hparent
  exact hside.spans.path hreached hfind

end Runs

/-! ## A listing beside a lookup -/

/-- The check behind `EnumeratesOnly`, for the root. -/
private def enumeratesCheck (_ : Config (service PathSample.fs)) :
    Action (service PathSample.fs) → Bool
  | .issue (.lookup parent _ _) => parent = NodeId.ROOT
  | .issue (.readdir ino _ _ _ _) => ino = NodeId.ROOT
  | .issue _ => false
  | _ => true

/-- The check behind `SparesFound`. -/
private def sparesCheck (c : Config (service PathSample.fs)) :
    Action (service PathSample.fs) → Bool
  | .step n _ =>
    match c.threads[n]? with
    | some ⟨_, _, .running (.act (.fs (.own i)) _)⟩ =>
      match (i : PathInstr PathSample.inner) with
      | .remove d => d ∉ c.state.fs.hist.found
      | _ => true
    | _ => true
  | _ => true

private lemma enumerates_of_check (c : Config (service PathSample.fs))
    (a : Action (service PathSample.fs)) (h : enumeratesCheck c a = true) :
    EnumeratesOnly NodeId.ROOT c a := by
  cases a with
  | issue req =>
    cases req with
    | lookup parent _ _ =>
      have heq : parent = NodeId.ROOT := of_decide_eq_true h
      exact heq
    | readdir ino _ _ _ _ =>
      have heq : ino = NodeId.ROOT := of_decide_eq_true h
      exact heq
    | _ => cases h
  | step n ch => trivial
  | answer n => trivial

private lemma spares_of_check (c : Config (service PathSample.fs))
    (a : Action (service PathSample.fs)) (h : sparesCheck c a = true) : SparesFound c a := by
  cases a with
  | step n ch =>
    rintro req d ⟨m, k, ht⟩
    unfold sparesCheck at h
    simp only [ht] at h
    exact of_decide_eq_true h
  | issue req => trivial
  | answer n => trivial

private lemma sharing_of_check (c : Config (service PathSample.fs))
    (a : Action (service PathSample.fs)) (h : (enumeratesCheck c a && sparesCheck c a) = true) :
    EnumeratesOnly NodeId.ROOT c a ∧ SparesFound c a := by
  obtain ⟨he, hs⟩ := Bool.and_eq_true_iff.mp h
  exact ⟨enumerates_of_check c a he, spares_of_check c a hs⟩

/-- The root is open for listing. -/
private def listable : Config (service PathSample.fs) :=
  PathSample.after PathSample.anyCheck (PathSample.whole 0 9 (.openNode .dir NodeId.ROOT 0 {}))

/-- A listing with a full sink has bound the name that it is offered. -/
private def listingBegins : List (Action (service PathSample.fs)) :=
  .issue (.readdir NodeId.ROOT 1 0 (fun _ _ => false) {}) ::
    PathSample.stepsListing 1 16 { names := [[98]] }

/-- The check behind both. -/
private def sharingCheck (c : Config (service PathSample.fs)) (a : Action (service PathSample.fs)) :
    Bool :=
  enumeratesCheck c a && sparesCheck c a

/-- The listing has bound the name, and a lookup is about to look for it. -/
private def besideListing : Config (service PathSample.fs) :=
  PathSample.thereafter listable sharingCheck
    (listingBegins ++ .issue (.lookup NodeId.ROOT [98] {}) :: PathSample.steps 2 3)

/-- The listing has unbound the name before it is looked for. -/
private def besideNone : Config (service PathSample.fs) :=
  PathSample.thereafter besideListing sharingCheck (PathSample.stepsListing 1 4 {})

/-- The lookup has bound the name again, and both requests have been answered. -/
private def besideLookup : Config (service PathSample.fs) :=
  PathSample.thereafter besideNone sharingCheck
    (PathSample.steps 2 16 ++ .answer 2 :: PathSample.stepsListing 1 4 {} ++ [.answer 1])

/-- What an answered thread has handed out. -/
private def handedBy (c : Config (service PathSample.fs)) (n : ℕ) : List (Dentry × NodeId) :=
  match c.threads[n]? with
  | some ⟨_, req, .done a⟩ => handedNames req a
  | _ => []

private lemma handedBy_eq {c : Config (service PathSample.fs)} {x : Dentry × NodeId}
    (h : handedBy c n = [x]) :
    ∃ t req a, c.threads[n]? = some ⟨t, req, .done a⟩ ∧ handedNames req a = [x] := by
  unfold handedBy at h
  split at h
  · next t req a ht => exact ⟨t, req, a, ht, h⟩
  · cases h

/-- The root has no names yet. -/
private lemma reached_listable : listable.state.fs.ns.Reached NodeId.ROOT := by
  have hempty : listable.state.fs.ns.byName.countWhere (fun _ _ => true) = 0 := by decide +kernel
  refine ⟨⟨Path.root, Namespace.pathFor_eq_some_iff.mpr .root⟩, ?_⟩
  intro name i hd
  have hpos := BTreeMap.countWhere_pos (p := fun _ _ => true) hd rfl
  omega

private lemma run_listable : Run anyAction (start PathSample.fs) listable :=
  PathSample.run_after PathSample.anyAction_of_check _ (by decide +kernel)

private lemma quiet_listable : listable.Quiet :=
  PathSample.quiet_of_all (by decide +kernel)

/-- A listing binds the name and takes it back because its sink is full, before a lookup binds it
again and hands it out. -/
theorem handed_names_stay_lookup : ∃ c₀ c₁ c₂ c : Config (service PathSample.fs),
    Run anyAction (start PathSample.fs) c₀ ∧ c₀.Quiet ∧
      Run (fun c a => EnumeratesOnly NodeId.ROOT c a ∧ SparesFound c a) c₀ c₁ ∧
      c₁.state.fs.ns.find ⟨1, [98]⟩ = some 2 ∧
      Run (fun c a => EnumeratesOnly NodeId.ROOT c a ∧ SparesFound c a) c₁ c₂ ∧
      c₂.state.fs.ns.find ⟨1, [98]⟩ = none ∧
      Run (fun c a => EnumeratesOnly NodeId.ROOT c a ∧ SparesFound c a) c₂ c ∧ c.Quiet ∧
      ∃ t req a, c.threads[2]? = some ⟨t, req, .done a⟩ ∧
        handedNames req a = [(⟨1, [98]⟩, 2)] ∧ c.state.fs.ns.find ⟨1, [98]⟩ = some 2 ∧
          ∃ p, c.state.fs.ns.pathFor 2 = some (some p) := by
  have hr₁ : Run (fun c a => EnumeratesOnly NodeId.ROOT c a ∧ SparesFound c a) listable
      besideListing := PathSample.run_thereafter sharing_of_check _ _ (by decide +kernel)
  have hr₂ : Run (fun c a => EnumeratesOnly NodeId.ROOT c a ∧ SparesFound c a) besideListing
      besideNone := PathSample.run_thereafter sharing_of_check _ _ (by decide +kernel)
  have hr₃ : Run (fun c a => EnumeratesOnly NodeId.ROOT c a ∧ SparesFound c a) besideNone
      besideLookup := PathSample.run_thereafter sharing_of_check _ _ (by decide +kernel)
  have hbound : besideListing.state.fs.ns.find ⟨1, [98]⟩ = some 2 := by decide +kernel
  have hunbound : besideNone.state.fs.ns.find ⟨1, [98]⟩ = none := by decide +kernel
  have hquiet : besideLookup.Quiet := PathSample.quiet_of_all (by decide +kernel)
  have hlen : listable.threads.length = 1 := by decide +kernel
  obtain ⟨t, req, a, ht, hhanded⟩ :=
    handedBy_eq (c := besideLookup) (n := 2) (x := (⟨1, [98]⟩, 2)) (by decide +kernel)
  have hr₀ := run_listable
  have hquiet₀ := quiet_listable
  have hreached := reached_listable
  generalize besideLookup = c at hr₃ hquiet ht
  generalize besideNone = c₂ at hr₂ hr₃ hunbound
  generalize besideListing = c₁ at hr₁ hr₂ hbound
  generalize listable = c₀ at hr₀ hquiet₀ hreached hr₁ hlen
  obtain ⟨hfind, hpath⟩ := handed_names_stay hr₀ hquiet₀ ((hr₁.trans hr₂).trans hr₃)
    (by omega) ht (⟨1, [98]⟩, 2) (by rw [hhanded]; exact List.mem_cons_self)
  exact ⟨c₀, c₁, c₂, c, hr₀, hquiet₀, hr₁, hbound, hr₂, hunbound, hr₃, hquiet,
    t, req, a, ht, hhanded, hfind, hpath hreached⟩

/-- A lookup finds the name and is answered while the listing has it bound, and then the listing
takes the name back. -/
private def takenBack : Config (service PathSample.fs) :=
  PathSample.thereafter listable enumeratesCheck
    (listingBegins ++ .issue (.lookup NodeId.ROOT [98] {}) :: PathSample.steps 2 16 ++ .answer 2 ::
      PathSample.stepsListing 1 8 {} ++ [.answer 1])

/-- A listing whose sink is full unbinds a name that a lookup has handed out: when both have been
answered, the name is not bound and its node has no path. -/
theorem rollback_takes_name : ∃ c₀ c : Config (service PathSample.fs),
    Run anyAction (start PathSample.fs) c₀ ∧ c₀.Quiet ∧
      c₀.state.fs.ns.Reached NodeId.ROOT ∧
      Run (EnumeratesOnly NodeId.ROOT) c₀ c ∧ c.Quiet ∧
      (∃ n t req a, c₀.threads.length ≤ n ∧ c.threads[n]? = some ⟨t, req, .done a⟩ ∧
        handedNames req a = [(⟨1, [98]⟩, 2)]) ∧
      c.state.fs.ns.find ⟨1, [98]⟩ = none ∧ c.state.fs.ns.pathFor 2 = some none := by
  have hr : Run (EnumeratesOnly NodeId.ROOT) listable takenBack :=
    PathSample.run_thereafter enumerates_of_check _ _ (by decide +kernel)
  have hquiet : takenBack.Quiet := PathSample.quiet_of_all (by decide +kernel)
  have hlen : listable.threads.length = 1 := by decide +kernel
  obtain ⟨t, req, a, ht, hhanded⟩ :=
    handedBy_eq (c := takenBack) (n := 2) (x := (⟨1, [98]⟩, 2)) (by decide +kernel)
  exact ⟨_, _, run_listable, quiet_listable, reached_listable, hr, hquiet,
    ⟨2, t, req, a, by omega, ht, hhanded⟩, by decide +kernel, by decide +kernel⟩

end TypedFuse
