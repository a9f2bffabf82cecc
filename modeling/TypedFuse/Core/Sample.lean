import TypedFuse.Core.Soundness

/-!
# A small filesystem

A filesystem without state of its own, for concrete runs of the runtime.  `lookup` inserts a new
node and returns it, `unlink` takes the link of the first node away, `open` returns the handle
`()`, and everything else fails with `ENOSYS`.
-/

namespace TypedFuse

open Conc Conc.Service TypedFuse.Runtime

namespace Sample

/-- The types of the sample filesystem. -/
def sig : FsSig where
  Node := ℕ
  Payload := fun _ => Unit
  State := Unit
  Instr := Empty
  Resp := fun i => i.elim
  Choice := Unit
  exec := fun _ i => i.elim

/-- A callback that is not implemented. -/
def unsupported {α : Type} : FsProg sig (Fallible α) :=
  .ret (fail .ENOSYS)

/-- The sample filesystem. -/
def fs : NodeFs where
  toFsSig := sig
  init := ()
  root := (0 : ℕ)
  populate := .ret ()
  getattr := fun node _ _ => .ret (.ok { size := show ℕ from node })
  setattr := fun _ _ _ _ => unsupported
  nodeOp := fun _ _ _ => unsupported
  fileOp := fun _ _ _ _ => unsupported
  fsyncdir := fun _ _ _ _ => unsupported
  statfs := fun _ => unsupported
  openNode := fun _ _ _ _ => .ret (.ok ⟨(), {}⟩)
  release := fun _ _ _ _ => .ret (.ok ())
  readdir := fun _ _ _ _ _ _ => .ret (fail .ENOSYS)
  readdirplus := fun _ _ _ _ _ _ => .ret (fail .ENOSYS)
  lookup := fun parent name _ =>
    .act (.insert name.length parent) fun id => .ret (.ok (some id))
  makeOp := fun _ _ => unsupported
  treeOp := fun _ _ => .act (.removeLink (2 : ℕ)) fun _ => .ret (.ok .unit)
  create := fun _ _ _ _ _ _ => unsupported

/-- The sample filesystem does not panic. -/
lemma noPanic : fs.NoPanic where
  getattr := fun _ _ _ h => nomatch h
  setattr := fun _ _ _ _ h => nomatch h
  nodeOp := fun _ _ _ h => nomatch h
  fileOp := fun _ _ _ _ h => nomatch h
  fsyncdir := fun _ _ _ _ h => nomatch h
  statfs := fun _ h => nomatch h
  openNode := fun _ _ _ _ h => nomatch h
  release := fun _ _ _ _ h => nomatch h
  readdir := fun _ _ _ _ _ _ h => nomatch h
  readdirplus := fun _ _ _ _ _ _ h => nomatch h
  lookup := fun _ _ _ _ h => nomatch h
  makeOp := fun _ _ h => nomatch h
  treeOp := fun _ _ _ h => nomatch h
  create := fun _ _ _ _ _ _ h => nomatch h

/-- The configuration after a list of actions that pass a check, from the start. -/
def after (check : Config (service fs) → Action (service fs) → Bool)
    (as : List (Action (service fs))) : Config (service fs) :=
  ((start fs).runs check as).getD (start fs)

/-- Any action passes. -/
def anyCheck (_ : Config (service fs)) (_ : Action (service fs)) : Bool := true

/-- The check behind `HonestKernel`. -/
def honestCheck (c : Config (service fs)) : Action (service fs) → Bool
  | .issue (.forget ino nlookup) => nlookup ≤ c.state.hist.held.count ino
  | _ => true

/-- The check behind `StableNumbers`. -/
def stableCheck (c : Config (service fs)) : Action (service fs) → Bool
  | .step n _ =>
    match c.threads[n]? with
    | some ⟨_, _, .running (.act (.fs (.insert payload parent)) _)⟩ =>
      match c.state.table.insert payload parent with
      | some (id, _) => id ∉ c.state.hist.resolving
      | none => true
    | _ => true
  | _ => true

lemma anyAction_of_check (c : Config (service fs)) (a : Action (service fs))
    (_ : anyCheck c a = true) : anyAction c a :=
  trivial

lemma honestKernel_of_check (c : Config (service fs)) (a : Action (service fs))
    (h : honestCheck c a = true) : HonestKernel c a := by
  unfold HonestKernel
  split
  · exact of_decide_eq_true h
  · trivial

lemma stableNumbers_of_check (c : Config (service fs)) (a : Action (service fs))
    (h : stableCheck c a = true) : StableNumbers c a := by
  cases a with
  | step n ch =>
    rintro req payload parent id t' ⟨m, k, ht⟩ hins
    unfold stableCheck at h
    simp only [ht, hins] at h
    exact of_decide_eq_true h
  | issue req => trivial
  | answer n => trivial

/-- A `lookup` of a name in the root. -/
def lookup (name : Name) : Action (service fs) :=
  .issue (.lookup NodeId.ROOT name {})

/-- The next `m` instructions of thread `n`. -/
def steps (n m : ℕ) : List (Action (service fs)) :=
  List.replicate m (.step n none)

end Sample

end TypedFuse
