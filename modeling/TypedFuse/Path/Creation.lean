import TypedFuse.Path.Rename

/-!
# What creation returns

`mknod`, `mkdir` and `symlink` make an object in the inner filesystem and then ask the namespace
for a node of its name.  The namespace makes one only if the name is not bound, so what they answer
with is new exactly when it was not.
-/

namespace TypedFuse

open Conc Conc.Service NodeTable TypedFuse.Runtime

variable {P : PathFilesystem} {n : ℕ}

/-! ## Callbacks -/

namespace Effect

variable {ns : Namespace} {t : PathTable P}

/-- `node_path`. -/
lemma nodePath (node : PathNode) :
    Effect P n ns t (PathNodeFs.nodePath node) fun _ ns' t' => ns' = ns ∧ t' = t := by
  refine (nodeId node.key).bind ?_
  rintro r _ _ ⟨_, rfl, rfl⟩
  cases r with
  | none => exact ret ⟨rfl, rfl⟩
  | some id =>
    refine (pathFor id).mono ?_
    rintro _ _ _ ⟨_, rfl, rfl⟩
    exact ⟨rfl, rfl⟩

/-- `getattr` changes neither the names nor the inode table. -/
lemma getattr (node : PathNode) (handle : Option (P.Payload .file)) (caller : Caller) :
    Effect P n ns t (PathNodeFs.getattr node handle caller) fun _ ns' t' =>
      ns' = ns ∧ t' = t := by
  refine reading ((nodePath node).bind ?_)
  rintro path _ _ ⟨rfl, rfl⟩
  exact inner _

/-- `mknod`, `mkdir` and `symlink`: a success is what `Namespace::insert` answered. -/
lemma makeNode (parent : NodeId) (name : Name)
    {make : Path → PathNodeFs.Callback P (Fallible NodeAttr)}
    (hmake : ∀ p, Effect P n ns t (make p) fun _ ns' t' => ns' = ns ∧ t' = t) :
    Effect P n ns t (PathNodeFs.makeNode parent name make)
      fun r ns' t' => ∀ id, r = .ok id →
        ∃ new, Inserted ns t ⟨parent, name⟩ parent (id, new) ns' t' := by
  refine writing (withPathOf (fun id h => nomatch h) fun p _ => ?_)
  refine innerThen (hmake p) (fun e id h => nomatch h) fun _ => ?_
  refine (addNode parent name).bind ?_
  intro id ns' t' h
  refine ret ?_
  intro id' hid
  obtain rfl := Except.ok.inj hid
  exact h

end Effect

/-- The requests that make an object under a name. -/
def MakeOp.creates : MakeOp → Option Dentry
  | .mknod parent name _ _ _ => some ⟨parent, name⟩
  | .mkdir parent name _ _ => some ⟨parent, name⟩
  | .symlink parent name _ => some ⟨parent, name⟩
  | .link _ _ _ => none

/-- A callback that makes an object answers with what `Namespace::insert` answered. -/
lemma Effect.makeOp {ns : Namespace} {t : PathTable P} {op : MakeOp} {d : Dentry}
    (hop : op.creates = some d) (caller : Caller) :
    Effect P n ns t (PathNodeFs.makeOp op caller)
      fun r ns' t' => ∀ id, r = .ok id →
        ∃ new, Inserted ns t d d.parent (id, new) ns' t' := by
  cases op with
  | mknod parent name mode rdev umask =>
    obtain rfl := Option.some.inj hop
    exact makeNode parent name fun p => inner _
  | mkdir parent name mode umask =>
    obtain rfl := Option.some.inj hop
    exact makeNode parent name fun p => inner _
  | symlink parent name target =>
    obtain rfl := Option.some.inj hop
    exact makeNode parent name fun p => inner _
  | link id newparent newname => cases hop

/-! ## Entry replies -/

/-- `entry_for` answers with the generation of the slot and issues nothing. -/
lemma ensures_entryFor (s : RtState (PathNodeFs.sig P)) (id : NodeId) (caller : Caller) :
    (service (pathNodeFs P)).Ensures n s (entryFor (pathNodeFs P) id caller) fun r s' =>
      ∀ e, r = .ok e → e.reply.ino = id ∧ s'.fs.ns = s.fs.ns ∧
        s'.table.issued = s.table.issued ∧
        ∃ sl, s.table.slot id = some sl ∧ e.reply.generation = sl.generation := by
  refine Ensures.step ?_
  intro ch den s₁ he
  obtain ⟨_, rfl⟩ := Prod.mk.inj (Option.some.inj he)
  refine Ensures.step ?_
  intro ch r s₂ he
  obtain ⟨⟨o, t₂⟩, hget, heq⟩ := Option.map_eq_some_iff.mp he
  obtain ⟨rfl, rfl⟩ := Prod.mk.inj heq
  rcases Leased.get_cases hget with ⟨rfl, _, _⟩ | ⟨sl, rfl, hsl, hinc⟩
  · exact fun e h => nomatch h
  · refine Ensures.bind (Effect.getattr (n := n) (t := t₂) sl.record.payload none
      caller _ rfl rfl) ?_
    rintro result s₃ ⟨hns, ht⟩
    cases result with
    | error e => exact Ensures.step fun ch _ s₄ _ e' h => nomatch h
    | ok attr =>
      refine Ensures.step ?_
      intro ch r s₄ he
      obtain ⟨⟨g, t₄⟩, hadd, heq⟩ := Option.map_eq_some_iff.mp he
      obtain ⟨rfl, rfl⟩ := Prod.mk.inj heq
      obtain ⟨⟨o, t₅⟩, hinc', heq'⟩ := Option.map_eq_some_iff.mp hadd
      obtain ⟨rfl, rfl⟩ := Prod.mk.inj heq'
      rw [ht] at hinc'
      rcases incr_cases hinc' with ⟨rfl, _, _⟩ | ⟨sl', rfl, hsl', _⟩
      · exact Ensures.step fun ch _ s₄ _ e' h => nomatch h
      · refine Ensures.step ?_
        intro ch _ s₅ he
        obtain ⟨_, rfl⟩ := Prod.mk.inj (Option.some.inj he)
        intro e h
        obtain rfl := Except.ok.inj h
        refine ⟨rfl, hns, ?_, sl, hsl, ?_⟩
        · exact (issued_dropRef _ _).trans ((issued_incr hinc').trans (issued_incr hinc))
        · rw [slot_incr hinc, hsl, Option.map_some] at hsl'
          obtain rfl := Option.some.inj hsl'
          split <;> rfl

/-- A request that makes an object answers with the node that `Namespace::insert` answered with. -/
lemma ensures_makeOp (s : RtState (PathNodeFs.sig P)) {op : MakeOp} {d : Dentry}
    (hop : op.creates = some d) (caller : Caller) :
    (service (pathNodeFs P)).Ensures n s (serve (pathNodeFs P) (.makeOp op caller)) fun r s' =>
      ∀ e, r = .ok (.entry e) → ∃ new t₁,
        Effect.Inserted s.fs.ns s.table d d.parent (e.reply.ino, new) s'.fs.ns t₁ ∧
          s'.table.issued = t₁.issued ∧
          ∃ sl, t₁.slot e.reply.ino = some sl ∧ e.reply.generation = sl.generation := by
  have hmake : (service (pathNodeFs P)).Ensures n s (Runtime.makeOp (pathNodeFs P) op caller)
      fun r s' => ∀ e, r = .ok e → ∃ new t₁,
        Effect.Inserted s.fs.ns s.table d d.parent (e.reply.ino, new) s'.fs.ns t₁ ∧
          s'.table.issued = t₁.issued ∧
          ∃ sl, t₁.slot e.reply.ino = some sl ∧ e.reply.generation = sl.generation := by
    refine Ensures.bind (Effect.makeOp (n := n) hop caller s rfl rfl) ?_
    intro r s₁ hr
    cases r with
    | error e => exact fun e' h => nomatch h
    | ok id =>
      obtain ⟨new, hins⟩ := hr id rfl
      refine Ensures.mono (ensures_entryFor s₁ id caller) ?_
      rintro r s' h e rfl
      obtain ⟨rfl, hns, hissued, hsl⟩ := h e rfl
      exact ⟨new, s₁.table, by rw [hns]; exact hins, hissued, hsl⟩
  refine Ensures.bind hmake ?_
  intro r s' h
  cases r with
  | error e => exact fun e' h => nomatch h
  | ok e₀ =>
    intro e he
    obtain rfl := Reply.entry.inj (Except.ok.inj he)
    exact h e₀ rfl

/-! ## New nodes -/

/-- The name is bound to the returned node, which was inserted in between, under an identity that
was not issued before. -/
structure NewNode (s s' : RtState (PathNodeFs.sig P)) (d : Dentry) (e : Entry) : Prop where
  bound : s'.fs.ns.find d = some e.reply.ino
  inserted : ∃ new, s'.table.issued = new ++ s.table.issued ∧
    (e.reply.ino, e.reply.generation) ∈ new.map Issue.identity
  unissued : s'.table.issued.length < 2 ^ 64 →
    (e.reply.ino, e.reply.generation) ∉ s.table.issued.map Issue.identity ∧
      (e.reply.ino, e.reply.generation) ≠ (NodeId.ROOT, 0)

/-- A node that `Namespace::insert` made is new. -/
lemma newNode_of_insert {s s' : RtState (PathNodeFs.sig P)} (hwf : s.table.WF) {d : Dentry}
    {e : Entry} {key : ℕ} {t₁ : PathTable P} {sl : Slot PathNode}
    (hins : s.table.insert (⟨key⟩ : PathNode) d.parent = some (e.reply.ino, t₁))
    (hbound : s'.fs.ns.find d = some e.reply.ino) (hissued : s'.table.issued = t₁.issued)
    (hsl : t₁.slot e.reply.ino = some sl) (hgen : e.reply.generation = sl.generation) :
    NewNode s s' d e := by
  obtain ⟨gen, t₂, halloc, rfl⟩ := insert_cases hins
  have hwf' := hwf.insert hins
  have hslot : sl.generation = gen := by
    have h := slot_set t₂ e.reply.ino e.reply.ino
      (s.table.freshSlot (⟨key⟩ : PathNode) gen d.parent)
    rw [if_pos rfl] at h
    obtain rfl := Option.some.inj (hsl.symm.trans h)
    rfl
  have hnew : s'.table.issued =
      [⟨e.reply.ino, gen, s.table.issued.length + 1⟩] ++ s.table.issued := hissued
  refine ⟨hbound, ⟨_, hnew, ?_⟩, ?_⟩
  · rw [hgen, hslot]
    exact List.mem_singleton_self _
  · intro hlen
    rw [hissued] at hlen
    have hnodup := hwf'.ordered.nodup hlen
    have hne := hwf'.ordered.ne_root hlen (List.mem_cons_self)
    rw [hgen, hslot]
    refine ⟨?_, hne⟩
    exact (List.nodup_cons.mp hnodup).1

/-- Creation yields a new node, in every reachable state, if and only if the name is not bound when
the request comes. -/
theorem creation_new_iff {c c' : Config (service (pathNodeFs P))}
    (hr : Run anyAction (start (pathNodeFs P)) c) {op : MakeOp} {d : Dentry}
    (hop : op.creates = some d) {caller : Caller} {e : Entry}
    (h : Serves c (.makeOp op caller) (.ok (.entry e)) c') :
    NewNode c.state c'.state d e ↔ c.state.fs.ns.find d = none := by
  obtain ⟨s, s', hissue, hprog, rfl⟩ := h
  obtain rfl : c.state = s := Option.some.inj hissue
  obtain ⟨new, t₁, hins, hissued, sl, hsl, hgen⟩ :=
    alone_iff_wp.mp (ensures_makeOp c.state hop caller) _ s' hprog e rfl
  obtain ⟨T, hinv⟩ := (holds_any hr).inv
  generalize hns : s'.fs.ns = ns' at hins
  constructor
  · intro hnew
    obtain ⟨l, hl, hmem⟩ := hnew.inserted
    cases hins with
    | made hfree _ _ => exact hfree
    | found hbound =>
      -- nothing was inserted
      have hl' : c.state.table.issued = l ++ c.state.table.issued := hissued.symm.trans hl
      have hnil : l = [] := by
        have hlen := congrArg List.length hl'
        rw [List.length_append] at hlen
        exact List.length_eq_zero_iff.mp (by omega)
      rw [hnil] at hmem
      exact absurd hmem List.not_mem_nil
  · intro hfree
    generalize hino : (e.reply.ino, new) = x at hins
    cases hins with
    | found hbound =>
      rw [hfree] at hbound
      cases hbound
    | @made id key ns₁ t₁ _ hkey hins =>
      obtain ⟨rfl, _⟩ := Prod.mk.inj hino
      refine newNode_of_insert hinv.wf hins ?_ hissued hsl hgen
      change s'.fs.ns.find d = some e.reply.ino
      rw [hns]
      exact Namespace.find_addAlias.trans (if_pos rfl)

/-- A file is made, unlinked and forgotten. -/
private def forgottenFile : List (Action (service PathSample.fs)) :=
  PathSample.whole 0 19 (PathSample.mknod [97]) ++
    PathSample.whole 1 8 (.treeOp (.unlink NodeId.ROOT [97]) {}) ++
    PathSample.whole 2 1 (.forget 2 1)

/-- A file that is made again gets the number of the old one with another generation. -/
theorem creation_new_iff_again : ∃ c c' : Config (service PathSample.fs), ∃ e : Entry,
    Run anyAction (start PathSample.fs) c ∧ c.state.table.issued.map Issue.identity = [(2, 0)] ∧
      Serves c (PathSample.mknod [97]) (.ok (.entry e)) c' ∧
      (e.reply.ino, e.reply.generation) = (2, 1) ∧ NewNode c.state c'.state ⟨1, [97]⟩ e := by
  have hr := PathSample.run_after PathSample.anyAction_of_check forgottenFile (by decide +kernel)
  have hfree : (PathSample.after PathSample.anyCheck forgottenFile).state.fs.ns.find ⟨1, [97]⟩ =
      none := by decide +kernel
  have hissued : (PathSample.after PathSample.anyCheck forgottenFile).state.table.issued.map
      Issue.identity = [(2, 0)] := by decide +kernel
  obtain ⟨c', hserves, _⟩ := PathSample.serves_of_endsIn
    (PathSample.after PathSample.anyCheck forgottenFile) (PathSample.mknod [97]) 30
    (.ok (.entry ⟨⟨2, 1, {}⟩, some (2, 1), 2⟩)) (fun _ => true) (by decide +kernel)
  generalize PathSample.after PathSample.anyCheck forgottenFile = c at *
  exact ⟨c, c', _, hr, hissued, hserves, rfl, (creation_new_iff hr rfl hserves).mpr hfree⟩

/-- A file is made, and a later lookup finds that it is gone. -/
private def goneFile : List (Action (service PathSample.fs)) :=
  PathSample.whole 0 19 (PathSample.mknod [97]) ++
    .issue (.lookup NodeId.ROOT [97] {}) :: PathSample.stepsListing 1 4 { absent := true } ++
    [.answer 1]

/-- Nothing was inserted if the list of issues is as long as before. -/
private lemma not_newNode {s s' : RtState (PathNodeFs.sig P)} {d : Dentry} {e : Entry}
    (h : s'.table.issued.length = s.table.issued.length) : ¬ NewNode s s' d e := by
  intro hnew
  obtain ⟨l, hl, hmem⟩ := hnew.inserted
  rw [hl, List.length_append] at h
  have hnil : l = [] := List.length_eq_zero_iff.mp (by omega)
  rw [hnil] at hmem
  exact absurd hmem List.not_mem_nil

/-- A file that is made under a name the inner filesystem has reported as absent is answered with
the node of the old file. -/
theorem creation_not_new : ∃ c c' : Config (service PathSample.fs),
    Run oneAtATime (start PathSample.fs) c ∧ c.Quiet ∧
      c.threads[1]?.any (PathSample.foundNothing [97]) = true ∧
      (2, 0) ∈ c.state.table.issued.map Issue.identity ∧
      Serves c (PathSample.mknod [97]) (.ok (.entry ⟨⟨2, 0, {}⟩, some (1, 0), 1⟩)) c' ∧
      ¬ NewNode c.state c'.state ⟨1, [97]⟩ ⟨⟨2, 0, {}⟩, some (1, 0), 1⟩ := by
  have hr := PathSample.run_after PathSample.oneAtATime_of_check goneFile (by decide +kernel)
  have hq : (PathSample.after PathSample.aloneCheck goneFile).Quiet :=
    PathSample.quiet_of_all (by decide +kernel)
  have hgone : (PathSample.after PathSample.aloneCheck goneFile).threads[1]?.any
      (PathSample.foundNothing [97]) = true := by decide +kernel
  have hissued : (PathSample.after PathSample.aloneCheck goneFile).state.table.issued.map
      Issue.identity = [(2, 0)] := by decide +kernel
  obtain ⟨c', hserves, hsame⟩ := PathSample.serves_of_endsIn
    (PathSample.after PathSample.aloneCheck goneFile) (PathSample.mknod [97]) 30
    (.ok (.entry ⟨⟨2, 0, {}⟩, some (1, 0), 1⟩)) (fun s => s.table.issued.length = 1)
    (by decide +kernel)
  generalize PathSample.after PathSample.aloneCheck goneFile = c at *
  have hlen : c.state.table.issued.length = 1 := by
    have h := congrArg List.length hissued
    rwa [List.length_map] at h
  refine ⟨c, c', hr, hq, hgone, ?_, hserves, not_newNode ?_⟩
  · rw [hissued]
    exact List.mem_singleton_self _
  · exact (of_decide_eq_true hsame).trans hlen.symm

end TypedFuse
