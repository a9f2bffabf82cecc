import TypedFuse.Conc.Trace
import TypedFuse.Path.Keys

/-!
# Unlinked nodes

A node that has lost its last name never gets another one.  `Namespace::insert` names a node that
was just made, `link` a node that has a name, and `rename` a node whose name it has removed in the
same section, so outside of the sections of the namespace a node without names stays without.  Its
number is not used for another node as long as a handle on it is registered, and until then every
operation on the handle passes no path.
-/

namespace TypedFuse

open Conc Conc.Service NodeTable TypedFuse.Runtime

variable {P : PathFilesystem} {n : ℕ} {α : Type}

/-- Some thread has a link of the node in its hands for which there is no name. -/
def Owing (T : Multiset PathToken) (i : NodeId) : Prop :=
  ∃ ns phase, PathToken.sect ns phase ∈ T ∧ phase.owes = some i

section Owing

variable {S T : Multiset PathToken} {ns : Namespace} {i : NodeId}

@[simp] lemma owing_zero : ¬ Owing 0 i := by
  rintro ⟨ns, phase, h, _⟩
  exact Multiset.notMem_zero _ h

@[simp] lemma owing_add : Owing (S + T) i ↔ Owing S i ∨ Owing T i := by
  constructor
  · rintro ⟨ns, phase, h, hp⟩
    rcases Multiset.mem_add.mp h with h | h
    · exact Or.inl ⟨ns, phase, h, hp⟩
    · exact Or.inr ⟨ns, phase, h, hp⟩
  · rintro (⟨ns, phase, h, hp⟩ | ⟨ns, phase, h, hp⟩)
    · exact ⟨ns, phase, Multiset.mem_add.mpr (Or.inl h), hp⟩
    · exact ⟨ns, phase, Multiset.mem_add.mpr (Or.inr h), hp⟩

@[simp] lemma owing_cons {x : PathToken} : Owing (x ::ₘ T) i ↔ Owing {x} i ∨ Owing T i := by
  rw [← Multiset.singleton_add, owing_add]

@[simp] lemma owing_sect {phase : NsPhase} : Owing {.sect ns phase} i ↔ phase.owes = some i := by
  constructor
  · rintro ⟨ns', phase', h, hp⟩
    obtain ⟨_, rfl⟩ := PathToken.sect.inj (Multiset.mem_singleton.mp h)
    exact hp
  · intro h
    exact ⟨ns, phase, Multiset.mem_singleton_self _, h⟩

@[simp] lemma owing_guard {m : Side} : ¬ Owing {m.guard ns} i := by
  rintro ⟨ns', phase, h, _⟩
  cases m with
  | read => cases Multiset.mem_singleton.mp h
  | write => cases Multiset.mem_singleton.mp h

@[simp] lemma owing_shared : ¬ Owing {.shared} i := by
  have h : ¬ Owing {Side.read.guard .new} i := owing_guard
  exact h

@[simp] lemma owing_excl {lent : Option NodeId} : ¬ Owing {.excl ns lent} i := by
  rintro ⟨ns', phase, h, _⟩
  cases Multiset.mem_singleton.mp h

end Owing

/-- The node has no names, and no thread is about to give it one. -/
structure Nameless (id : NodeId) (ns : Namespace) (T : Multiset PathToken) : Prop where
  names : ns.names id = ∅
  owing : ¬ Owing T id

section Steps

variable {s s' : RtState (PathNodeFs.sig P)} {T : Multiset PathToken} {id : NodeId}

/-- A section that leaves the names alone. -/
lemma names_exec {i : PathInstr P} {f f' : PathState P} {c : P.Choice} {r : i.Resp}
    (hi : (∀ k j d, i ≠ .record k j d) ∧ (∀ d, i ≠ .remove d) ∧
      ∀ j d, i ≠ .addAlias j d)
    (he : f.exec n i c = some (r, f')) (j : NodeId) : f'.ns.names j = f.ns.names j := by
  obtain ⟨hrecord, hremove, hadd⟩ := hi
  cases i with
  | record k j d => exact absurd rfl (hrecord k j d)
  | remove d => exact absurd rfl (hremove d)
  | addAlias j d => exact absurd rfl (hadd j d)
  | readLock | writeLock | nsLock | nodeId key =>
    simp only [PathState.exec] at he
    split at he
    · cases he
    · obtain ⟨_, rfl⟩ := Prod.mk.inj (Option.some.inj he)
      rfl
  | readUnlock | writeUnlock | nsUnlock | known d | find d =>
    obtain ⟨_, rfl⟩ := Prod.mk.inj (Option.some.inj he)
    rfl
  | pathFor id =>
    simp only [PathState.exec] at he
    split at he
    · cases he
    · obtain ⟨_, _, heq⟩ := Option.map_eq_some_iff.mp he
      obtain ⟨_, rfl⟩ := Prod.mk.inj heq
      rfl
  | takeKey =>
    obtain ⟨⟨k, ns⟩, hk, heq⟩ := Option.map_eq_some_iff.mp he
    obtain ⟨_, rfl⟩ := Prod.mk.inj heq
    unfold Namespace.takeKey at hk
    split at hk
    · obtain ⟨_, rfl⟩ := Prod.mk.inj (Option.some.inj hk)
      rfl
    · cases hk
  | inner call =>
    obtain ⟨_, _, heq⟩ := Option.map_eq_some_iff.mp he
    obtain ⟨_, rfl⟩ := Prod.mk.inj heq
    rfl

/-- An own step of the adapter that leaves the names alone. -/
lemma Nameless.own {i : PathInstr P} {ch : Option P.Choice} {r : i.Resp} {T' : Multiset PathToken}
    (h : Nameless id s.fs.ns T) (he : s.exec n i.rt ch = some (r, s'))
    (hi : (∀ k j d, i ≠ .record k j d) ∧ (∀ d, i ≠ .remove d) ∧
      ∀ j d, i ≠ .addAlias j d)
    (howing : Owing T' id → Owing T id) : Nameless id s'.fs.ns T' := by
  obtain ⟨c, f', hex, rfl⟩ := exec_own he
  exact ⟨(names_exec hi hex id).trans h.names, fun hT => h.owing (howing hT)⟩

/-- No instruction gives a live node without names a name, as long as its number stays its own. -/
theorem PathContract.nameless {i : RtInstr (PathNodeFs.sig P)} {C : Contract PathToken i.Resp}
    (hC : PathContract False i C) {ch : Option P.Choice} {r : i.Resp} {F g : Multiset PathToken}
    (hwf : s.table.WF) (hroot : id ≠ NodeId.ROOT) {sl : Slot PathNode}
    (hlive : s.table.slot id = some sl) (he : s.exec n i ch = some (r, s'))
    (hi : PathInv False s (pathView (C.take + F))) (h : Nameless id s.fs.ns (C.take + F))
    (hgive : C.give r g) : Nameless id s'.fs.ns (g + F) := by
  cases hC with
  | runtime i hrt =>
    obtain rfl : g = 0 := hgive
    rw [(calm_exec hrt he).2]
    exact h
  | readLock | readUnlock | writeUnlock ns | nsUnlock ns =>
    obtain rfl := hgive
    exact h.own he (by simp) (by simp [NsPhase.owes])
  | nodeId key | pathFor j | inner call =>
    obtain rfl := hgive
    exact h.own he (by simp) fun hT => hT
  | writeLock =>
    obtain ⟨ns, rfl⟩ := hgive
    exact h.own he (by simp) (by simp)
  | pathForExcl ns j | known ns d | find ns d =>
    obtain ⟨_, rfl⟩ := hgive
    exact h.own he (by simp) fun hT => hT
  | nsLock m ns =>
    obtain ⟨ns', _, rfl⟩ := hgive
    exact h.own he (by simp) (by simp [NsPhase.owes])
  | takeKey m ns =>
    obtain ⟨ns', _, rfl⟩ := hgive
    exact h.own he (by simp) (by simp [NsPhase.owes])
  | insert ns key parent =>
    obtain rfl := hgive
    obtain ⟨⟨j, t'⟩, hins, heq⟩ := Option.map_eq_some_iff.mp he
    obtain ⟨rfl, rfl⟩ := Prod.mk.inj heq
    have hne : j ≠ id := by
      rintro rfl
      rw [hwf.insert_dead hins] at hlive
      cases hlive
    refine ⟨h.names, ?_⟩
    have howing := h.owing
    simp only [owing_add, owing_sect, NsPhase.owes, Option.some.injEq, hne, false_or] at howing ⊢
    exact fun hT => howing (Or.inr hT)
  | record m ns key j d hd =>
    obtain rfl := hgive
    obtain ⟨c, f', hex, rfl⟩ := exec_own he
    obtain ⟨_, rfl⟩ := Prod.mk.inj (Option.some.inj hex)
    have howing := h.owing
    simp only [owing_add, owing_guard, owing_sect, NsPhase.owes, Option.some.injEq, false_or,
      not_or] at howing
    refine ⟨?_, by simp [NsPhase.owes, howing.2]⟩
    change (s.fs.ns.addAlias j d).names id = ∅
    rw [Namespace.names_addAlias, if_neg (Ne.symm howing.1)]
    exact h.names
  | remove m ns d =>
    obtain ⟨hr, rfl⟩ := hgive
    obtain ⟨c, f', hex, rfl⟩ := exec_own he
    obtain ⟨hans, rfl⟩ := Prod.mk.inj (Option.some.inj hex)
    have hns : ns = s.fs.ns :=
      hi.guarded.sectNs (ns, .level) (mem_sect_pathView.mpr (by simp))
    subst hns
    have howing := h.owing
    simp only [owing_add, owing_guard, owing_sect, NsPhase.owes, false_or] at howing
    -- a name of another node is removed, if any
    cases hd : s.fs.ns.find d with
    | none =>
      rw [hd] at hr
      subst hr
      refine ⟨?_, by simpa [NsPhase.owes] using howing⟩
      change (s.fs.ns.remove d).2.names id = ∅
      rw [show (s.fs.ns.remove d).2 = s.fs.ns by unfold Namespace.remove; rw [hd]]
      exact h.names
    | some j =>
      rw [hd] at hr
      subst hr
      have hne : j ≠ id := by
        rintro rfl
        have hmem := hi.linked.bound d j hd
        rw [h.names] at hmem
        exact Finset.notMem_empty d hmem
      refine ⟨?_, by simpa [NsPhase.owes, hne] using howing⟩
      change (s.fs.ns.remove d).2.names id = ∅
      rw [Namespace.names_remove hd, if_neg hne.symm]
      exact h.names
  | removeLink ns j =>
    obtain rfl := hgive
    obtain ⟨_, rfl⟩ := Prod.mk.inj (Option.some.inj he)
    exact ⟨h.names, fun hT => h.owing (by simpa [NsPhase.owes] using Or.inr hT)⟩
  | rebind ns j d hd =>
    obtain rfl := hgive
    obtain ⟨c, f', hex, rfl⟩ := exec_own he
    obtain ⟨_, rfl⟩ := Prod.mk.inj (Option.some.inj hex)
    have howing := h.owing
    simp only [owing_add, owing_excl, owing_sect, NsPhase.owes, Option.some.injEq, false_or,
      not_or] at howing
    refine ⟨?_, by simp [NsPhase.owes, howing.2]⟩
    change (s.fs.ns.addAlias j d).names id = ∅
    rw [Namespace.names_addAlias, if_neg (Ne.symm howing.1)]
    exact h.names
  | addAlias ns j d hj =>
    obtain ⟨lent, _, rfl⟩ := hgive
    obtain ⟨c, f', hex, rfl⟩ := exec_own he
    obtain ⟨_, rfl⟩ := Prod.mk.inj (Option.some.inj hex)
    have hns : ns = s.fs.ns :=
      hi.guarded.sectNs (ns, .level) (mem_sect_pathView.mpr (by simp))
    subst hns
    have hne : j ≠ id := by
      rintro rfl
      rcases hj with hj | hj
      · exact hroot hj
      · exact hj.ne_empty h.names
    refine ⟨?_, fun hT => h.owing (by simpa [NsPhase.owes] using hT)⟩
    change (s.fs.ns.addAlias j d).names id = ∅
    rw [Namespace.names_addAlias, if_neg hne.symm]
    exact h.names
  | addLink ns j lent hlent =>
    obtain rfl := hgive
    obtain ⟨t', hadd, heq⟩ := Option.map_eq_some_iff.mp he
    obtain ⟨_, rfl⟩ := Prod.mk.inj heq
    exact ⟨h.names, fun hT => h.owing (by simpa using hT)⟩
  | reparent j newParent =>
    obtain ⟨_, rfl⟩ := Prod.mk.inj (Option.some.inj he)
    obtain rfl : g = 0 := hgive
    exact h

end Steps

/-! ## Runs -/

section Runs

variable {c₀ c : Config (service (pathNodeFs P))} {id : NodeId} {sl₀ : Slot PathNode}

/-- While nobody is in a section of the namespace, no link waits for a name. -/
lemma not_owing {T : Multiset PathToken} {s : RtState (PathNodeFs.sig P)} {i : NodeId}
    (hi : PathInv False s (pathView T)) (hlock : s.fs.nsLocked = false) : ¬ Owing T i := by
  rintro ⟨ns, phase, hmem, _⟩
  have hcard := hi.guarded.holders
  rw [hlock, if_neg Bool.false_ne_true, Multiset.card_eq_zero] at hcard
  have hsect := mem_sect_pathView.mpr hmem
  rw [hcard] at hsect
  exact Multiset.notMem_zero _ hsect

/-- A node without names stays without, until its number is given up. -/
lemma names_stay (hr₀ : Run anyAction (start (pathNodeFs P)) c₀)
    (hlock : c₀.state.fs.nsLocked = false) (hroot : id ≠ NodeId.ROOT)
    (hempty : c₀.state.fs.ns.names id = ∅) (hsl : c₀.state.table.slot id = some sl₀)
    (hr : Run (StaysLive id) c₀ c) : c.state.fs.ns.names id = ∅ := by
  have hsound : ((pathLogic P False).strengthen fun s T => Nameless id s.fs.ns T).Sound
      (StaysLive id) c₀ := by
    have hpath : (pathLogic P False).Sound anyAction (start (pathNodeFs P)) :=
      path_sound fun h => h.elim
    refine Logic.Sound.strengthen (hpath.mono hr₀ fun _ _ _ => trivial) ?_ ?_ ?_
    · intro c n m req i k ch r s f C g hr _ he hC hi hJ hg _
      obtain ⟨sl, hlive, _⟩ := same_node hr₀ hsl hr
      exact hC.nameless (wf_of_run (hr₀.trans hr.any)) hroot hlive he hi hJ hg
    · intro c req s f _ hs h
      obtain rfl := Option.some.inj hs
      rw [show (pathLogic P False).init c.threads.length req + f = f from zero_add f]
      cases req with
      | _ => exact h
    · intro c n id req a g f _ _ hpost h
      obtain rfl : g = 0 := hpost
      rw [zero_add] at h
      exact h
  have hholds : (pathLogic P False).Holds c₀ := path_holds (fun h => h.elim) hr₀
  have hstart : ((pathLogic P False).strengthen fun s T => Nameless id s.fs.ns T).Holds c₀ := by
    obtain ⟨gs, hown, hinv⟩ := hholds.tokens
    exact ⟨hholds.numbered, ⟨gs, hown, hinv, hempty, not_owing hinv hlock⟩, hholds.facts⟩
  obtain ⟨T, _, hnameless⟩ := (Logic.holds_of_run hsound hstart hr).inv
  exact hnameless.names

end Runs

/-! ## The paths of handle operations -/

/-- The inode of a request that passes the path of its node along, if it has one: all operations on
a handle other than `readdir` and `readdirplus`, which need a path. -/
def Request.onNode : Request → Option ℕ
  | .getattr ino _ _ => some ino
  | .setattr ino _ _ _ => some ino
  | .fileOp _ ino _ _ => some ino
  | .fsyncdir ino _ _ _ => some ino
  | .release _ ino _ _ => some ino
  | _ => none

/-- The path that such an operation passes. -/
def PathCall.nodePath {Payload : HandleKind → Type} : PathCall Payload → Option (Option Path)
  | .getattr path _ _ => some path
  | .setattr path _ _ _ => some path
  | .fileOp _ path _ _ => some path
  | .fsyncdir path _ _ _ => some path
  | .release _ path _ _ => some path
  | _ => none

/-- The path is what was found for the node with the number: its key has no number, or the number
of its key has this path. -/
def Found (ino : ℕ) (path : Option Path) (past : List (Event (service (pathNodeFs P)))) : Prop :=
  ∃ n ref, ⟨n, .node ino, some ref⟩ ∈ past ∧
    ((path = none ∧
      ∃ m, ⟨m, PathInstr.rt (.nodeId ref.record.payload.key), none⟩ ∈ past) ∨
      ∃ m l j, ⟨m, PathInstr.rt (.nodeId ref.record.payload.key), some j⟩ ∈ past ∧
        ⟨l, PathInstr.rt (.pathFor j), path⟩ ∈ past)

/-- A request on a node passes the path that it has found. -/
def Passes (req : Request) (past : List (Event (service (pathNodeFs P)))) :
    RtInstr (PathNodeFs.sig P) → Prop
  | .fs (.own i) =>
    match (i : PathInstr P) with
    | .inner call => ∀ ino, req.onNode = some ino →
      ∃ path, call.nodePath = some path ∧ Found ino path past
    | _ => True
  | _ => True

/-- A program of a request that runs after the node was looked up. -/
def Passing (n : ℕ) (req : Request) (ref : NodeRef PathNode) (ino : ℕ)
    (p : RtProg (PathNodeFs.sig P) α) : Prop :=
  ∀ past, ⟨n, .node ino, some ref⟩ ∈ past →
    Tracks (S := service (pathNodeFs P)) (Passes req) n past p
      fun _ past' => ⟨n, .node ino, some ref⟩ ∈ past'

namespace Passing

variable {req : Request} {ref : NodeRef PathNode} {ino : ℕ} {p : RtProg (PathNodeFs.sig P) α}

lemma ret (a : α) : Passing n req ref ino (.ret a : RtProg (PathNodeFs.sig P) α) :=
  fun _ hmem => hmem

lemma step {i : RtInstr (PathNodeFs.sig P)} {f : i.Resp → RtProg (PathNodeFs.sig P) α}
    (hi : ∀ past, Passes req past i) (hf : ∀ r, Passing n req ref ino (f r)) :
    Passing n req ref ino (Prog.perform i >>= f) := by
  intro past hmem
  refine Tracks.step (hi past) ?_
  intro r
  exact hf r _ (List.mem_append_left _ hmem)

lemma bind {β : Type} {f : α → RtProg (PathNodeFs.sig P) β} (hp : Passing n req ref ino p)
    (hf : ∀ a, Passing n req ref ino (f a)) : Passing n req ref ino (p >>= f) := by
  intro past hmem
  refine Tracks.bind (hp past hmem) ?_
  intro a past' hmem'
  exact hf a past' hmem'

/-- The end of a callback that passes a path. -/
lemma passed {c : PathCall P.Payload} {path : Option Path} (hc : c.nodePath = some path)
    (honly : req.onNode = some ino) {past : List (Event (service (pathNodeFs P)))}
    (hmem : ⟨n, .node ino, some ref⟩ ∈ past) (hfound : Found ino path past) :
    Tracks (S := service (pathNodeFs P)) (Passes req) n past
      (call (σ := PathNodeFs.sig P)
        (PathNodeFs.inner c >>= fun a => PathNodeFs.own .readUnlock >>= fun _ => .ret a))
      fun _ past' => ⟨n, .node ino, some ref⟩ ∈ past' := by
  refine ⟨?_, fun r => ⟨trivial, fun _ => ?_⟩⟩
  · intro ino' hino'
    obtain rfl : ino = ino' := Option.some.inj (honly.symm.trans hino')
    exact ⟨path, hc, hfound⟩
  · exact List.mem_append_left _ (List.mem_append_left _ hmem)

/-- A callback that passes what `node_path` returns. -/
lemma told {next : Option Path → PathNodeFs.Callback P α}
    (hnext : ∀ path past, ⟨n, .node ino, some ref⟩ ∈ past → Found ino path past →
      Tracks (S := service (pathNodeFs P)) (Passes req) n past
        (call (σ := PathNodeFs.sig P)
          (next path >>= fun a => PathNodeFs.own .readUnlock >>= fun _ => .ret a))
        fun _ past' => ⟨n, .node ino, some ref⟩ ∈ past') :
    Passing n req ref ino (call (σ := PathNodeFs.sig P) (PathNodeFs.reading do
      let path ← PathNodeFs.nodePath ref.record.payload
      next path)) := by
  intro past hmem
  refine ⟨trivial, fun _ => ⟨trivial, fun o => ?_⟩⟩
  cases o with
  | none =>
    refine hnext none _ (List.mem_append_left _ (List.mem_append_left _ hmem)) ?_
    refine ⟨n, ref, List.mem_append_left _ (List.mem_append_left _ hmem),
      Or.inl ⟨rfl, n, ?_⟩⟩
    exact List.mem_append_right _ (List.mem_singleton_self _)
  | some j =>
    refine ⟨trivial, fun path => ?_⟩
    have hmem' := List.mem_append_left [⟨n, PathInstr.rt (.pathFor j), path⟩]
      (List.mem_append_left [⟨n, PathInstr.rt (.nodeId ref.record.payload.key), some j⟩]
        (List.mem_append_left [⟨n, PathInstr.rt .readLock, ()⟩] hmem))
    refine hnext path _ hmem' ⟨n, ref, hmem', Or.inr ⟨n, n, j, ?_, ?_⟩⟩
    · exact List.mem_append_left _ (List.mem_append_right _ (List.mem_singleton_self _))
    · exact List.mem_append_right _ (List.mem_singleton_self _)

/-- `file(ino, fh)?` or `dir(ino, fh)?` and the rest of the function. -/
lemma withHandle {k : HandleKind} {ino' fh : ℕ}
    {body : P.Payload k → RtProg (PathNodeFs.sig P) (Fallible α)}
    (hbody : ∀ h, Passing n req ref ino (body h)) :
    Passing n req ref ino (Runtime.withHandle (σ := PathNodeFs.sig P) k ino' fh body) := by
  refine step (fun _ => by trivial) fun r => ?_
  cases r with
  | none => exact ret _
  | some arc =>
    intro past hmem
    refine Prog.wp_ite (fun _ => ?_) fun _ => ?_
    · refine step (fun _ => by trivial) (fun granted => ?_) past hmem
      intro past hmem
      refine Prog.wp_ite (fun _ => ?_) fun _ => ?_
      · refine step (fun _ => by trivial)
          (fun _ => step (fun _ => by trivial) fun h => ?_) past hmem
        refine (hbody h).bind fun a => ?_
        exact step (fun _ => by trivial) fun _ => step (fun _ => by trivial) fun _ => ret a
      · exact step (fun _ => by trivial) (fun _ => ret _) past hmem
    · exact step (fun _ => by trivial) (fun _ => ret _) past hmem

/-- `node(ino)?` and the rest of the function. -/
lemma withNode {body : NodeRef PathNode → RtProg (PathNodeFs.sig P) (Fallible α)}
    (hbody : ∀ ref, Passing n req ref ino (body ref))
    (past : List (Event (service (pathNodeFs P)))) :
    Tracks (S := service (pathNodeFs P)) (Passes req) n past
      (Runtime.withNode (σ := PathNodeFs.sig P) ino body) fun _ _ => True := by
  refine Tracks.step (by trivial) fun r => ?_
  cases r with
  | none => trivial
  | some ref =>
    refine Tracks.bind (hbody ref _ (List.mem_append_right _ (List.mem_singleton_self _))) ?_
    intro a past' _
    exact Tracks.step (by trivial) fun _ => trivial

/-- `HandleRecord::close_and_take`. -/
lemma closeAndTake (k : HandleKind) (record : HandleArc) :
    Passing n req ref ino (Runtime.closeAndTake (σ := PathNodeFs.sig P) k record) := by
  refine step (fun _ => by trivial) fun drained => ?_
  intro past hmem
  refine Prog.wp_ite (fun _ => ?_) fun _ => ?_
  · exact step (fun _ => by trivial) (fun h => ret h) past hmem
  · exact step (fun _ => by trivial)
      (fun _ => step (fun _ => by trivial) fun h => ret h) past hmem

end Passing

/-- A request that is not about a node may pass anything. -/
lemma passes_of_none {req : Request} (h : req.onNode = none)
    (past : List (Event (service (pathNodeFs P)))) (i : RtInstr (PathNodeFs.sig P)) :
    Passes req past i := by
  unfold Passes
  split
  · split
    · intro ino hino
      rw [h] at hino
      cases hino
    · trivial
  · trivial

/-- Every request passes the path that it has found. -/
lemma tracks_passes (n : ℕ) (req : Request) :
    Tracks (S := service (pathNodeFs P)) (Passes req) n [] (serve (pathNodeFs P) req)
      fun _ _ => True := by
  have hend : ∀ {α β : Type} {p : RtProg (PathNodeFs.sig P) α} (f : α → β),
      Tracks (S := service (pathNodeFs P)) (Passes req) n [] p (fun _ _ => True) →
      Tracks (S := service (pathNodeFs P)) (Passes req) n [] (p >>= fun a => .ret (f a))
        fun _ _ => True :=
    fun f hp => hp.bind fun _ _ _ => trivial
  cases req with
  | getattr ino fh caller =>
    refine hend _ (Passing.withNode (fun ref => ?_) _)
    cases fh with
    | none => exact Passing.told fun path past => Passing.passed rfl rfl
    | some fh =>
      exact Passing.withHandle fun h => Passing.told fun path past => Passing.passed rfl rfl
  | setattr ino fh set caller =>
    refine hend _ (Passing.withNode (fun ref => ?_) _)
    cases fh with
    | none => exact Passing.told fun path past => Passing.passed rfl rfl
    | some fh =>
      exact Passing.withHandle fun h => Passing.told fun path past => Passing.passed rfl rfl
  | fileOp op ino fh caller =>
    refine hend _ (Passing.withNode (fun ref => ?_) _)
    exact Passing.withHandle fun h => Passing.told fun path past => Passing.passed rfl rfl
  | fsyncdir ino fh datasync caller =>
    refine hend _ (Passing.withNode (fun ref => ?_) _)
    exact Passing.withHandle fun h => Passing.told fun path past => Passing.passed rfl rfl
  | release k ino fh caller =>
    refine hend _ (Tracks.step (by trivial) fun r => ?_)
    cases r with
    | none => trivial
    | some record =>
      refine Tracks.bind (Passing.withNode (fun ref => ?_) _) fun _ _ _ =>
        Tracks.step (by trivial) fun _ => trivial
      refine Passing.step (fun _ => by trivial) fun _ => ?_
      refine Passing.bind (Passing.closeAndTake k record) fun h => ?_
      exact Passing.told fun path past => Passing.passed rfl rfl
  | _ => exact Tracks.of_forall (passes_of_none rfl) _

/-! ## What is found for a node without names -/

section Unlinked

variable {c₀ c : Config (service (pathNodeFs P))} {id : NodeId} {sl₀ : Slot PathNode}
  {es : List (Event (service (pathNodeFs P)))}

/-- The node that is found under the number is the one that has it. -/
lemma node_found (hr₀ : Run anyAction (start (pathNodeFs P)) c₀)
    (hsl : c₀.state.table.slot id = some sl₀) (h : Traced (StaysLive id) c₀ c es) {m : ℕ}
    {ref : NodeRef PathNode}
    (he : (⟨m, .node id, some ref⟩ : Event (service (pathNodeFs P))) ∈ es) :
    ref.record = sl₀.record := by
  obtain ⟨es₁, es₂, hes⟩ := List.append_of_mem he
  obtain ⟨c₁, _, _, _, _, s, htr, _, _, hexec, _⟩ := h.fired hes
  obtain ⟨sl, hlive, hrec, _⟩ := same_node hr₀ hsl htr.run
  obtain ⟨⟨o, t'⟩, hget, heq⟩ := Option.map_eq_some_iff.mp hexec
  obtain ⟨rfl, _⟩ := Prod.mk.inj heq
  rcases Leased.get_cases hget with ⟨hnone, _, _⟩ | ⟨sl', hsome, hsl', _⟩
  · cases hnone
  · obtain rfl := Option.some.inj hsome
    obtain rfl : sl' = sl := Option.some.inj (hsl'.symm.trans hlive)
    exact hrec

/-- The key of the node leads to its number. -/
lemma key_found (hr₀ : Run anyAction (start (pathNodeFs P)) c₀)
    (hsl : c₀.state.table.slot id = some sl₀) (h : Traced (StaysLive id) c₀ c es) {m : ℕ}
    {o : Option NodeId}
    (he : (⟨m, PathInstr.rt (.nodeId sl₀.record.payload.key), o⟩ :
      Event (service (pathNodeFs P))) ∈ es) : o = some id := by
  obtain ⟨es₁, es₂, hes⟩ := List.append_of_mem he
  obtain ⟨c₁, _, _, _, _, s, htr, _, _, hexec, _⟩ := h.fired hes
  obtain ⟨sl, hlive, hrec, _⟩ := same_node hr₀ hsl htr.run
  have hholds : (pathLogic P False).Holds c₁ :=
    path_holds (fun h => h.elim) (hr₀.trans htr.run.any)
  obtain ⟨T, hinv⟩ := hholds.inv
  have hinv' : PathInv False c₁.state (pathView T) := hinv
  obtain ⟨ch', f, hf, rfl⟩ := exec_own (P := P) hexec
  simp only [PathState.exec] at hf
  split at hf
  · cases hf
  · next hlock =>
    obtain ⟨rfl, _⟩ := Prod.mk.inj (Option.some.inj hf)
    rcases hinv'.keyed.slotKey id sl hlive with hkey | ⟨x, hx, hphase⟩
    · rw [hrec] at hkey
      exact hkey
    · have hcard := hinv'.guarded.holders
      rw [if_neg hlock, Multiset.card_eq_zero] at hcard
      rw [hcard] at hx
      exact absurd hx (Multiset.notMem_zero x)

/-- It has no path. -/
lemma path_found (hr₀ : Run anyAction (start (pathNodeFs P)) c₀)
    (hlock : c₀.state.fs.nsLocked = false) (hroot : id ≠ NodeId.ROOT)
    (hempty : c₀.state.fs.ns.names id = ∅) (hsl : c₀.state.table.slot id = some sl₀)
    (h : Traced (StaysLive id) c₀ c es) {m : ℕ} {path : Option Path}
    (he : (⟨m, PathInstr.rt (.pathFor id), path⟩ : Event (service (pathNodeFs P))) ∈ es) :
    path = none := by
  obtain ⟨es₁, es₂, hes⟩ := List.append_of_mem he
  obtain ⟨c₁, _, _, _, _, s, htr, _, _, hexec, _⟩ := h.fired hes
  have hnames := names_stay hr₀ hlock hroot hempty hsl htr.run
  obtain ⟨ch', f, hf, rfl⟩ := exec_own (P := P) hexec
  simp only [PathState.exec] at hf
  split at hf
  · cases hf
  · rw [Namespace.pathFor_of_names_empty hroot hnames] at hf
    obtain ⟨rfl, _⟩ := Prod.mk.inj (Option.some.inj hf)
    rfl

/-- A handle on the node is registered or about to be uncounted, or the node is leased by a request,
after the step. -/
def StaysAttached (id : NodeId) (c : Config (service (pathNodeFs P)))
    (a : Action (service (pathNodeFs P))) : Prop :=
  ∀ c', c.next a = some c' →
    0 < c'.state.handles.registered id ∨ id ∈ c'.state.hist.closing ∨
    ∃ x ∈ c'.state.hist.rtRefs, x.1 = id

/-- A node to which something is attached is live. -/
lemma StaysAttached.live (hr₀ : Run anyAction (start (pathNodeFs P)) c₀)
    (h : Traced (StaysAttached id) c₀ c es) : Traced (StaysLive id) c₀ c es := by
  refine h.mono_next ?_
  intro c es a c' htr ha hn c'' hn'
  have hr : Run anyAction (start (pathNodeFs P)) c'' :=
    .tail a (hr₀.trans htr.run.any) trivial hn'
  obtain ⟨T, hinv⟩ := (holds_any hr).inv
  have hi : Inv Env.any c''.state (view T) := hinv
  have hopens := hi.opens.count id
  rw [← hi.opens.opening, ← hi.opens.closing] at hopens
  rcases ha c'' hn' with hreg | hclosing | ⟨x, hx, rfl⟩
  · exact slot_of_count_pos (c := .opens) (by omega)
  · have hpos := Multiset.count_pos.mpr hclosing
    exact slot_of_count_pos (c := .opens) (by omega)
  · refine slot_of_count_pos (c := .leases) ?_
    rw [hi.leased.count, Multiset.countP_pos]
    exact ⟨x, Multiset.mem_add.mpr (Or.inl hx), rfl⟩

/-- A node that has lost its last name has none until its number is given up, and no operation on a
handle that is issued meanwhile passes a path.  The number is not given up while a handle on the
node is registered or being released. -/
theorem unlinked_stays_nameless {es₀ : List (Event (service (pathNodeFs P)))}
    (h₀ : Traced anyAction (start (pathNodeFs P)) c₀ es₀)
    (hlock : c₀.state.fs.nsLocked = false) (hroot : id ≠ NodeId.ROOT)
    (hempty : c₀.state.fs.ns.names id = ∅) (hsl : c₀.state.table.slot id = some sl₀) :
    (∀ c es, Traced (StaysLive id) c₀ c es → c.state.fs.ns.names id = ∅ ∧
      ∀ e ∈ es, ∀ call, e.instr = PathInstr.rt (.inner call) →
        c₀.threads.length ≤ e.thread →
        ∀ t, c.threads[e.thread]? = some t → t.req.onNode = some id →
          call.nodePath = some none) ∧
    ∀ c es, Traced (StaysAttached id) c₀ c es → Traced (StaysLive id) c₀ c es := by
  have hr₀ : Run anyAction (start (pathNodeFs P)) c₀ := h₀.run
  refine ⟨?_, fun c es h => StaysAttached.live hr₀ h⟩
  intro c es h
  refine ⟨names_stay hr₀ hlock hroot hempty hsl h.run, ?_⟩
  intro e he call hcall hlater t ht hreq
  obtain ⟨l₁, l₂, rfl⟩ := List.append_of_mem he
  have htracked := (h₀.trans h.any).tracked rfl tracks_passes
  obtain ⟨t', ht', hpasses⟩ := htracked.events (es₀ ++ l₁) e l₂
    (List.append_assoc _ _ _).symm
  obtain rfl : t' = t := Option.some.inj (ht'.symm.trans ht)
  have hfresh : eventsOf e.thread es₀ = [] :=
    (h₀.tracked rfl tracks_passes).eventsOf_fresh hlater
  rw [eventsOf_append, hfresh, List.nil_append, hcall] at hpasses
  obtain ⟨path, hpath, m, ref, hnode, hfound⟩ := hpasses id hreq
  have hin : ∀ {e'}, e' ∈ eventsOf e.thread l₁ → e' ∈ l₁ ++ e :: l₂ :=
    fun h => List.mem_append_left _ (mem_eventsOf.mp h).1
  have hrec := node_found hr₀ hsl h (hin hnode)
  rw [hpath]
  rcases hfound with ⟨rfl, _⟩ | ⟨m', l, j, hkey, hfor⟩
  · rfl
  · rw [hrec] at hkey
    obtain rfl := Option.some.inj (key_found hr₀ hsl h (hin hkey))
    rw [path_found hr₀ hlock hroot hempty hsl h (hin hfor)]

end Unlinked

/-- A file is made, opened and unlinked. -/
private def openUnlinked : List (Action (service PathSample.fs)) :=
  PathSample.whole 0 19 (PathSample.mknod [98]) ++
    PathSample.whole 1 9 (.openNode .file 2 0 {}) ++
    PathSample.whole 2 8 (.treeOp (.unlink NodeId.ROOT [98]) {})

/-- The check behind `StaysLive`. -/
private def liveCheck (c : Config (service PathSample.fs)) (a : Action (service PathSample.fs)) :
    Bool :=
  match c.next a with
  | some c' => (c'.state.table.slot 2).isSome
  | none => true

private lemma live_of_check (c : Config (service PathSample.fs))
    (a : Action (service PathSample.fs)) (h : liveCheck c a = true) : StaysLive 2 c a := by
  intro c' hn
  unfold liveCheck at h
  simp only [hn] at h
  exact Option.isSome_iff_exists.mp h

/-- The unlinked file is written to. -/
private def written : List (Action (service PathSample.fs)) :=
  PathSample.whole 3 13 (.fileOp (.write [65] 0) 2 1 {})

/-- The open file has lost its name, and a write to it is served. -/
theorem unlinked_stays_nameless_write : ∃ (c₀ c : Config (service PathSample.fs))
    (es : List (Event (service PathSample.fs))),
    Run anyAction (start PathSample.fs) c₀ ∧ c₀.state.fs.ns.names 2 = ∅ ∧
      c₀.threads.length = 3 ∧ Traced (StaysLive 2) c₀ c es ∧
      0 < c.state.handles.registered 2 ∧ c.state.fs.ns.names 2 = ∅ ∧
      ∀ e ∈ es, ∀ call, e.instr = PathInstr.rt (.inner call) → 3 ≤ e.thread →
        ∀ t, c.threads[e.thread]? = some t → t.req.onNode = some 2 →
          call.nodePath = some none := by
  have hr₀ := PathSample.run_after PathSample.anyAction_of_check openUnlinked (by decide +kernel)
  have hlock : (PathSample.after PathSample.anyCheck openUnlinked).state.fs.nsLocked = false := by
    decide +kernel
  have hempty : (PathSample.after PathSample.anyCheck openUnlinked).state.fs.ns.names 2 = ∅ := by
    decide +kernel
  have hlive : ((PathSample.after PathSample.anyCheck openUnlinked).state.table.slot 2).isSome =
      true := by decide +kernel
  have hlength : (PathSample.after PathSample.anyCheck openUnlinked).threads.length = 3 := by
    decide +kernel
  have hr : Run (StaysLive 2) (PathSample.after PathSample.anyCheck openUnlinked)
      (PathSample.thereafter (PathSample.after PathSample.anyCheck openUnlinked) liveCheck
        written) :=
    PathSample.run_thereafter live_of_check _ _ (by decide +kernel)
  have hreg : 0 < (PathSample.thereafter (PathSample.after PathSample.anyCheck openUnlinked)
      liveCheck written).state.handles.registered 2 := by decide +kernel
  generalize PathSample.thereafter (PathSample.after PathSample.anyCheck openUnlinked) liveCheck
    written = c at hr hreg
  generalize PathSample.after PathSample.anyCheck openUnlinked = c₀ at *
  obtain ⟨sl, hsl⟩ := Option.isSome_iff_exists.mp hlive
  obtain ⟨es₀, h₀⟩ := hr₀.traced
  obtain ⟨es, h⟩ := hr.traced
  have hall := (unlinked_stays_nameless h₀ hlock (by decide) hempty hsl).1 c es h
  rw [hlength] at hall
  exact ⟨c₀, c, es, hr₀, hempty, hlength, h, hreg, hall.1, hall.2⟩

end TypedFuse
