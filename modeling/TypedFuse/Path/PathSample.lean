import TypedFuse.Conc.Sequential
import TypedFuse.Path.Callbacks

/-!
# An agreeable inner filesystem

An inner filesystem that lets every call succeed, whatever it was asked before, for concrete runs
of the adapter.  It stands for a backing tree that is changed behind the adapter's back: names that
were made can be gone, and names that were removed can be there again.  What a listing contains and
how it ends is the choice of the run.
-/

namespace TypedFuse

open Conc Conc.Service TypedFuse.Runtime

namespace PathSample

/-- The entries of a listing, whether it fails at its end, and whether a looked up name is there. -/
structure Entries where
  names : List Name := []
  fails : Bool := false
  absent : Bool := false

/-- Emit names until the sink is full. -/
def listing {D : Type} (data : D) (fails : Bool) : List Name → Listing D
  | [] => .finish (if fails then fail .ENOENT else .ok ())
  | name :: names =>
    .emit name data names.length fun taken =>
      if taken then listing data fails names else .finish (.ok ())

/-- The answers of the agreeable filesystem. -/
def answer (e : Entries) : (c : PathCall fun _ => Unit) → c.Resp
  | .lookup _ _ _ => Except.ok (if e.absent then none else some ({} : NodeAttr))
  | .getattr _ _ _ => Except.ok ({} : NodeAttr)
  | .setattr _ _ _ _ => Except.ok ({} : NodeAttr)
  | .nodeOp _ _ _ => Except.ok Value.unit
  | .fileOp _ _ _ _ => Except.ok Value.unit
  | .fsyncdir _ _ _ _ => Except.ok ()
  | .statfs _ _ => Except.ok ({} : StatFs)
  | .openNode _ _ _ _ => Except.ok (Opened.mk () {})
  | .release _ _ _ _ => Except.ok ()
  | .mknod _ _ _ _ _ _ => Except.ok ({} : NodeAttr)
  | .mkdir _ _ _ _ _ => Except.ok ({} : NodeAttr)
  | .symlink _ _ _ _ => Except.ok ({} : NodeAttr)
  | .create _ _ _ _ _ _ => Except.ok (({} : NodeAttr), Opened.mk () {})
  | .unlink _ _ _ => Except.ok ()
  | .rmdir _ _ _ => Except.ok ()
  | .rename _ _ _ _ _ => Except.ok ()
  | .link _ _ _ _ => Except.ok ({} : NodeAttr)
  | .readdir _ _ _ _ => listing FileKind.regularFile e.fails e.names
  | .readdirplus _ _ _ _ => listing ({} : NodeAttr) e.fails e.names

/-- The agreeable filesystem. -/
def inner : PathFilesystem where
  Payload := fun _ => Unit
  State := Unit
  Choice := Entries
  init := ()
  call := fun c e s => some (answer e c, s)

/-- The adapter over the agreeable filesystem. -/
abbrev fs : NodeFs := pathNodeFs inner

/-- The configuration after a list of actions that pass a check. -/
def thereafter (c : Config (service fs))
    (check : Config (service fs) → Action (service fs) → Bool)
    (as : List (Action (service fs))) : Config (service fs) :=
  (c.runs check as).getD c

/-- The configuration after a list of actions that pass a check, from the start. -/
def after (check : Config (service fs) → Action (service fs) → Bool)
    (as : List (Action (service fs))) : Config (service fs) :=
  ((start fs).runs check as).getD (start fs)

/-- A list of actions that passes a check is a run of allowed actions. -/
lemma run_thereafter {allow : Config (service fs) → Action (service fs) → Prop}
    {check : Config (service fs) → Action (service fs) → Bool}
    (hcheck : ∀ c a, check c a = true → allow c a) (c : Config (service fs))
    (as : List (Action (service fs))) (h : (c.runs check as).isSome = true) :
    Run allow c (thereafter c check as) := by
  obtain ⟨c', hc⟩ := Option.isSome_iff_exists.mp h
  unfold thereafter
  rw [hc]
  exact run_of_runs hcheck hc

/-- A list of actions that passes a check leads to a reachable configuration. -/
lemma run_after {allow : Config (service fs) → Action (service fs) → Prop}
    {check : Config (service fs) → Action (service fs) → Bool}
    (hcheck : ∀ c a, check c a = true → allow c a) (as : List (Action (service fs)))
    (h : ((start fs).runs check as).isSome = true) : Run allow (start fs) (after check as) :=
  run_thereafter hcheck (start fs) as h

/-- The next `m` instructions of thread `n`. -/
def steps (n m : ℕ) : List (Action (service fs)) :=
  List.replicate m (.step n (some ({} : Entries)))

/-- The next `m` instructions of thread `n`, with the entries of a listing. -/
def stepsListing (n m : ℕ) (e : Entries) : List (Action (service fs)) :=
  List.replicate m (.step n (some e))

/-- Serve a request alone: `m` instructions and the answer. -/
def whole (n m : ℕ) (req : Request) : List (Action (service fs)) :=
  .issue req :: steps n m ++ [.answer n]

/-- Any action passes. -/
def anyCheck (_ : Config (service fs)) (_ : Action (service fs)) : Bool := true

lemma anyAction_of_check (c : Config (service fs)) (a : Action (service fs))
    (_ : anyCheck c a = true) : anyAction c a :=
  trivial

/-- The check behind `oneAtATime`. -/
def aloneCheck (c : Config (service fs)) : Action (service fs) → Bool
  | .issue _ => c.threads.all fun t =>
    match t.phase with
    | .done _ => true
    | .running _ => false
  | _ => true

lemma quiet_of_all {c : Config (service fs)}
    (h : (c.threads.all fun t =>
      match t.phase with
      | .done _ => true
      | .running _ => false) = true) : c.Quiet := by
  intro t ht
  have hdone := List.all_eq_true.mp h t ht
  cases hp : t.phase with
  | done a => exact ⟨a, rfl⟩
  | running p =>
    rw [hp] at hdone
    cases hdone

lemma oneAtATime_of_check (c : Config (service fs)) (a : Action (service fs))
    (h : aloneCheck c a = true) : oneAtATime c a := by
  cases a with
  | issue req => exact quiet_of_all h
  | step n ch => trivial
  | answer n => trivial

/-- The check behind `NoOverwrite`. -/
def freshCheck (c : Config (service fs)) : Action (service fs) → Bool
  | .step n _ =>
    match c.threads[n]? with
    | some ⟨_, _, .running (.act (.fs (.own i)) _)⟩ =>
      match (i : PathInstr inner) with
      | .addAlias _ d => (c.state.fs.ns.find d).isNone
      | _ => true
    | _ => true
  | _ => true

lemma noOverwrite_of_check (c : Config (service fs)) (a : Action (service fs))
    (h : freshCheck c a = true) : NoOverwrite c a := by
  cases a with
  | step n ch =>
    rintro req id d ⟨m, k, ht⟩
    unfold freshCheck at h
    simp only [ht] at h
    exact Option.isNone_iff_eq_none.mp h
  | issue req => trivial
  | answer n => trivial

/-- Does a program of thread `n` that runs alone, of at most `m` instructions, end with the value
`a` in a state that satisfies `Φ`? -/
def endsIn {α : Type} [DecidableEq α] (n m : ℕ) (p : RtProg fs.toFsSig α)
    (s : RtState fs.toFsSig) (a : α) (Φ : RtState fs.toFsSig → Bool) : Bool :=
  match
    (runAlone (service fs) n (some ({} : Entries)) m p s : Option (α × RtState fs.toFsSig)) with
  | some (b, s') => b = a && Φ s'
  | none => false

lemma alone_of_endsIn {α : Type} [DecidableEq α] {n m : ℕ} {p : RtProg fs.toFsSig α}
    {s : RtState fs.toFsSig} {a : α} {Φ : RtState fs.toFsSig → Bool}
    (h : endsIn n m p s a Φ = true) : ∃ s', Alone (service fs) n p s a s' ∧ Φ s' = true := by
  unfold endsIn at h
  split at h
  · next b s' hrun =>
    obtain ⟨hb, hΦ⟩ := Bool.and_eq_true_iff.mp h
    obtain rfl := of_decide_eq_true hb
    exact ⟨s', alone_of_runAlone hrun, hΦ⟩
  · cases h

/-- A request that ends with the answer `a` when it is served alone. -/
lemma serves_of_endsIn (c : Config (service fs)) (req : Request) (m : ℕ) (a : Fallible Reply)
    (Φ : RtState fs.toFsSig → Bool)
    (h : endsIn c.threads.length m (serve fs req) (issue c.threads.length req c.state) a
      (fun s => Φ (Runtime.answer c.threads.length a s)) = true) :
    ∃ c', Serves c req a c' ∧ Φ c'.state = true := by
  obtain ⟨s', hs', hΦ⟩ := alone_of_endsIn h
  exact ⟨_, ⟨_, s', rfl, hs', rfl⟩, hΦ⟩

/-- A request that ends with the answer `a` when it is served alone, with the entries of a
listing. -/
lemma serves_of_listing (c : Config (service fs)) (req : Request) (m : ℕ) (e : Entries)
    (a : Fallible Reply)
    (h : (runAlone (service fs) c.threads.length (some e) m (serve fs req)
      (issue c.threads.length req c.state)).map Prod.fst = some a) : ∃ c', Serves c req a c' := by
  obtain ⟨⟨_, s'⟩, hrun, rfl⟩ := Option.map_eq_some_iff.mp h
  exact ⟨_, _, s', rfl, alone_of_runAlone hrun, rfl⟩

/-- Is the request a lookup of a name in the root that found nothing? -/
def foundNothing (name : Name) (t : Thread (service fs)) : Bool :=
  match t.req, t.phase with
  | .lookup parent name' _, .done (.ok .negative) => parent = NodeId.ROOT && name' = name
  | _, _ => false

/-- Make a file in the root. -/
def mknod (name : Name) : Request :=
  .makeOp (.mknod NodeId.ROOT name 0 0 0) {}

end PathSample

end TypedFuse
