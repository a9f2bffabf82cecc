import TypedFuse.Path.PathSample

/-!
# Names, bindings and links

Between requests the two maps of the namespace are inverse to each other and every link of a node
is one of its names.  The invariant of the guards gives this for every run in which `link` is not
let through on a name that is still bound; `rename` unbinds such a name first, `link` does not.
-/

namespace TypedFuse

open Conc Conc.Service NodeTable TypedFuse.Runtime

variable {P : PathFilesystem}

/-- The namespace and the inode table represent the same bindings. -/
structure Represents (s : RtState (PathNodeFs.sig P)) : Prop where
  /-- The names of a node are the names that are bound to it. -/
  mutual_inverse : ∀ d id, d ∈ s.fs.ns.names id ↔ s.fs.ns.find d = some id
  /-- No set of names is stored empty. -/
  noEmpty : s.fs.ns.NoEmptyAlias
  /-- A bound node is live. -/
  live : ∀ d id, s.fs.ns.find d = some id → ∃ sl, s.table.slot id = some sl
  /-- A node has a link for every name, and the root one more. -/
  links : ∀ id sl, s.table.slot id = some sl → sl.links = (s.fs.ns.names id).card + rootLink id

/-- Without guards in use, an exact balance is a representation. -/
lemma PathInv.represents {s : RtState (PathNodeFs.sig P)} (h : PathInv True s PathView.empty) :
    Represents s where
  mutual_inverse := fun d id => ⟨h.linked.named trivial d id, h.linked.bound d id⟩
  noEmpty := h.linked.noEmpty
  live := fun d id hd => slot_of_count_pos (h.linked.links_pos hd)
  links := by
    intro id sl hsl
    have hbalance := h.linked.balanced trivial id
    rw [count_of_slot hsl] at hbalance
    exact hbalance.symm

/-- The representation invariant of the namespace: after every run in which no bound name is
overwritten, with any inner filesystem and any interleaving, it holds whenever all requests have
been answered. -/
theorem namespace_represents {c : Config (service (pathNodeFs P))}
    (hr : Run NoOverwrite (start (pathNodeFs P)) c) (hq : c.Quiet) : Represents c.state := by
  have hholds : (pathLogic P True).Holds c := path_holds (fun _ _ _ h => h) hr
  have hinv : PathInv True c.state (pathView 0) := hholds.inv_quiet hq
  exact PathInv.represents hinv

/-- A file is made and linked under a second, free name. -/
private def linkedFile : List (Action (service PathSample.fs)) :=
  PathSample.whole 0 19 (PathSample.mknod [97]) ++
    PathSample.whole 1 18 (.makeOp (.link 2 NodeId.ROOT [98]) {})

/-- A file with two names has two links. -/
theorem namespace_represents_linked : ∃ c : Config (service PathSample.fs),
    Run NoOverwrite (start PathSample.fs) c ∧ c.Quiet ∧
      c.state.fs.ns.names 2 = {⟨1, [97]⟩, ⟨1, [98]⟩} ∧
      (c.state.table.slot 2).map Slot.links = some 2 ∧ Represents c.state := by
  have hr := PathSample.run_after PathSample.noOverwrite_of_check linkedFile
    (by decide +kernel)
  have hq : (PathSample.after PathSample.freshCheck linkedFile).Quiet :=
    PathSample.quiet_of_all (by decide +kernel)
  exact ⟨_, hr, hq, by decide +kernel, by decide +kernel, namespace_represents hr hq⟩

/-- Two files are made, and the first is linked over the name of the second. -/
private def overwritingLink : List (Action (service PathSample.fs)) :=
  PathSample.whole 0 19 (PathSample.mknod [97]) ++ PathSample.whole 1 19 (PathSample.mknod [98]) ++
    PathSample.whole 2 18 (.makeOp (.link 2 NodeId.ROOT [98]) {})

/-- A name that is bound to one node and counted among the names of another. -/
lemma not_represents {s : RtState (PathNodeFs.sig P)} {d : Dentry} {i j : NodeId}
    (hfind : s.fs.ns.find d = some i) (hmem : d ∈ s.fs.ns.names j) (hij : i ≠ j) :
    ¬ Represents s := by
  intro h
  have hj := (h.mutual_inverse d j).mp hmem
  rw [hfind] at hj
  exact hij (Option.some.inj hj)

/-- A sequential run after which a name is bound to one node and still counted among the names of
another: the inner filesystem let a `link` onto a name succeed that the namespace had bound. -/
theorem namespace_not_represented : ∃ c : Config (service PathSample.fs),
    Run oneAtATime (start PathSample.fs) c ∧ c.Quiet ∧
      c.state.fs.ns.find ⟨1, [98]⟩ = some 2 ∧
      (⟨1, [98]⟩ : Dentry) ∈ c.state.fs.ns.names 3 ∧
      ¬ Represents c.state := by
  have hr := PathSample.run_after PathSample.oneAtATime_of_check overwritingLink
    (by decide +kernel)
  have hq : (PathSample.after PathSample.aloneCheck overwritingLink).Quiet :=
    PathSample.quiet_of_all (by decide +kernel)
  have hfind : (PathSample.after PathSample.aloneCheck overwritingLink).state.fs.ns.find
      ⟨1, [98]⟩ = some 2 := by decide +kernel
  have hnames : (PathSample.after PathSample.aloneCheck overwritingLink).state.fs.ns.names 3 =
      {⟨1, [98]⟩} := by decide +kernel
  generalize PathSample.after PathSample.aloneCheck overwritingLink = c at hr hq hfind hnames
  have hmem : (⟨1, [98]⟩ : Dentry) ∈ c.state.fs.ns.names 3 := by
    rw [hnames]
    exact Finset.mem_singleton_self _
  exact ⟨c, hr, hq, hfind, hmem, not_represents hfind hmem (by decide)⟩

end TypedFuse
