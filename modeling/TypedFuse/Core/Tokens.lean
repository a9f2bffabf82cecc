import TypedFuse.Core.Accounting
import TypedFuse.Core.HandleProtocol

/-!
# The token logic of the runtime

The tokens that a running request owns: the `NodeRef`s it holds, the node identifier it got from a
callback, the lookups it has counted, the open it is about to register or to uncount, and its part
of handle records.  `RtContract` says what every instruction does to them and `Inv` is what the
tokens of all threads mean together.

The invariant has parts that hold only in a well-behaved environment, which `Env` names: a kernel
that forgets no more lookups than it holds, a filesystem that does not panic, and runs in which no
inode number is issued again while a request that was given it has not leased it yet.
-/

namespace TypedFuse

open Conc NodeTable

/-- A ghost token of a running request. -/
inductive Token where
  /-- A `NodeRef`: inode, record and generation. -/
  | lease (id addr gen : ℕ)
  /-- A node identifier that a callback returned, with what it denoted then. -/
  | resolved (id : ℕ) (den : Option (ℕ × ℕ))
  /-- The node identifier that this thread got was dead. -/
  | vanished (n : ℕ)
  /-- A lookup that this thread has counted or has to forget. -/
  | lookup (n id : ℕ)
  /-- A counted open without a registered handle. -/
  | opening (ino : ℕ)
  /-- A counted open of a removed handle. -/
  | closing (ino : ℕ)
  /-- An `Arc` of a handle record. -/
  | arc (k : HandleKind) (a : ℕ)
  /-- A lease on a handle record, with its `Arc`. -/
  | handle (k : HandleKind) (a : ℕ)
  /-- The duty to close a handle record, with its `Arc`. -/
  | closer (k : HandleKind) (a : ℕ) (st : Stage)
  /-- This thread moved the payload of a handle record out. -/
  | took (n : ℕ) (k : HandleKind) (a : ℕ)

/-- Lookups and the tokens about the outcome of a request stay with their thread. -/
def Token.own (n : ℕ) : Token → Prop
  | .lookup m _ => m = n
  | .vanished m => m = n
  | .took m _ _ => m = n
  | _ => True

/-- The tokens of a multiset, sorted by their kind. -/
structure View where
  leases : Multiset (ℕ × ℕ × ℕ)
  resolved : Multiset (ℕ × Option (ℕ × ℕ))
  vanished : Multiset ℕ
  lookups : Multiset (ℕ × ℕ)
  opening : Multiset ℕ
  closing : Multiset ℕ
  owners : Owners
  took : Multiset (ℕ × HandleKind × ℕ)

/-- No tokens. -/
def View.empty : View := ⟨0, 0, 0, 0, 0, 0, ⟨0, 0, 0⟩, 0⟩

/-- Add one token. -/
def View.add (v : View) : Token → View
  | .lease id addr gen => { v with leases := (id, addr, gen) ::ₘ v.leases }
  | .resolved id den => { v with resolved := (id, den) ::ₘ v.resolved }
  | .vanished n => { v with vanished := n ::ₘ v.vanished }
  | .lookup n id => { v with lookups := (n, id) ::ₘ v.lookups }
  | .opening ino => { v with opening := ino ::ₘ v.opening }
  | .closing ino => { v with closing := ino ::ₘ v.closing }
  | .arc k a => { v with owners := { v.owners with arcs := (k, a) ::ₘ v.owners.arcs } }
  | .handle k a => { v with owners := { v.owners with leases := (k, a) ::ₘ v.owners.leases } }
  | .closer k a st =>
    { v with owners := { v.owners with closers := (k, a, st) ::ₘ v.owners.closers } }
  | .took n k a => { v with took := (n, k, a) ::ₘ v.took }

instance : LeftCommutative fun (t : Token) (v : View) => v.add t where
  left_comm := by
    intro x y v
    cases x <;> cases y <;> simp only [View.add, Multiset.cons_swap]

/-- Sort the tokens of a multiset by their kind. -/
def view (T : Multiset Token) : View :=
  T.foldr (fun t v => v.add t) View.empty

lemma view_cons (x : Token) (T : Multiset Token) : view (x ::ₘ T) = (view T).add x :=
  Multiset.foldr_cons _ _ _ _

@[simp] lemma view_single (x : Token) (T : Multiset Token) : view ({x} + T) = (view T).add x := by
  rw [Multiset.singleton_add, view_cons]

@[simp] lemma view_pair (x y : Token) (T : Multiset Token) :
    view ({x} + {y} + T) = ((view T).add y).add x := by
  rw [add_assoc, view_single, view_single]

/-- The lookups of a thread among the tokens. -/
lemma view_lookups (n : ℕ) (m : Multiset ℕ) (T : Multiset Token) :
    view (m.map (Token.lookup n) + T) =
      { view T with lookups := m.map (Prod.mk n) + (view T).lookups } := by
  induction m using Multiset.induction with
  | empty => simp
  | cons a m ih =>
    rw [Multiset.map_cons, Multiset.cons_add, view_cons, ih, Multiset.map_cons, View.add,
      Multiset.cons_add]

/-- What the environment is assumed to respect. -/
structure Env where
  /-- The kernel forgets no more lookups than it holds. -/
  honest : Prop
  /-- The callbacks of the filesystem do not panic. -/
  noPanic : Prop
  /-- No inode number is issued while it is being resolved. -/
  stable : Prop

variable {σ : FsSig}

/-- What the tokens of all threads mean. -/
structure Inv (E : Env) (s : RtState σ) (v : View) : Prop where
  wf : s.table.WF
  leased : Leased s.table s.hist v.leases
  lookedUp : LookedUp E.honest E.noPanic s.table s.hist v.lookups
  opens : Opens s.table s.handles s.hist v.opening v.closing
  resolved : Resolved E.stable s.table s.hist v.resolved
  vanished : s.hist.vanished = v.vanished
  handles : HandleInv s.handles s.hist v.owners v.took

/-- The token of a `NodeRef`. -/
def NodeRef.token {N : Type} (r : NodeRef N) (gen : ℕ) : Token :=
  .lease r.id r.record.addr gen

/-- The contracts of the instructions, for the thread `n`. -/
inductive RtContract (E : Env) (n : ℕ) : (i : RtInstr σ) → Contract Token i.Resp → Prop where
  | fs (i : FsInstr σ) : RtContract E n (.fs i) .free
  | node (id : NodeId) : RtContract E n (.node id)
      ⟨0, fun r g => (r = none ∧ g = 0) ∨
        ∃ ref gen, r = some ref ∧ ref.id = id ∧ g = {ref.token gen}⟩
  /-- An open that is still counted keeps the node. -/
  | nodeOpen (id : NodeId) : RtContract E n (.node id)
      ⟨{.closing id}, fun r g =>
        ∃ ref gen, r = some ref ∧ ref.id = id ∧ g = {ref.token gen} + {.closing id}⟩
  | dropNode (ref : NodeRef σ.Node) (gen : ℕ) : RtContract E n (.dropNode ref)
      ⟨{ref.token gen}, fun _ g => g = 0⟩
  | denote (id : NodeId) : RtContract E n (.denote id) ⟨0, fun den g => g = {.resolved id den}⟩
  | lease (id : NodeId) (den : Option (ℕ × ℕ)) : RtContract E n (.lease id)
      ⟨{.resolved id den}, fun r g => (r = none ∧ g = {.vanished n}) ∨
        ∃ ref gen, r = some ref ∧ ref.id = id ∧ g = {ref.token gen} ∧
          (E.stable → den = some (ref.record.addr, gen))⟩
  | grant (ref : NodeRef σ.Node) (gen : ℕ) : RtContract E n (.grant ref.id)
      ⟨{ref.token gen}, fun r g => r = some gen ∧ g = {ref.token gen} + {.lookup n ref.id}⟩
  | plusEntry (id : NodeId) : RtContract E n (.plusEntry id) .free
  | retainLookup (id : NodeId) : RtContract E n (.retainLookup id)
      ⟨0, fun r g => (r = none ∧ g = 0) ∨ ∃ gen, r = some gen ∧ g = {.lookup n id}⟩
  | forget (ino nlookup : ℕ) : RtContract E n (.forget ino nlookup)
      ⟨Multiset.replicate nlookup (.lookup n ino), fun _ g => g = 0⟩
  | leak (ids : List NodeId) (h : ¬(E.honest ∧ E.noPanic)) : RtContract E n (.leak ids)
      ⟨Multiset.map (Token.lookup n) ↑ids, fun _ g => g = 0⟩
  | addOpen (ref : NodeRef σ.Node) (gen : ℕ) : RtContract E n (.addOpen ref.id)
      ⟨{ref.token gen}, fun r g => r = true ∧ g = {ref.token gen} + {.opening ref.id}⟩
  /-- `create` relies on the lookup that it has just counted. -/
  | addOpenCreated (ino : ℕ) : RtContract E n (.addOpen ino)
      ⟨{.lookup n ino}, fun r g => (r = true ∧ g = {.lookup n ino} + {.opening ino}) ∨
        (r = false ∧ ¬E.honest ∧ g = {.lookup n ino})⟩
  | removeOpen (ino : ℕ) : RtContract E n (.removeOpen ino) ⟨{.closing ino}, fun _ g => g = 0⟩
  | parentOf (ino : ℕ) : RtContract E n (.parentOf ino) .free
  | addHandle (k : HandleKind) (node : NodeId) (payload : σ.Payload k) :
      RtContract E n (.addHandle k node payload) ⟨{.opening node}, fun _ g => g = 0⟩
  | discard (k : HandleKind) (payload : σ.Payload k) : RtContract E n (.discard k payload) .free
  | findHandle (k : HandleKind) (fh : ℕ) : RtContract E n (.findHandle k fh)
      ⟨0, fun r g => (r = none ∧ g = 0) ∨ ∃ arc, r = some arc ∧ g = {.arc k arc.addr}⟩
  | removeHandle (k : HandleKind) (ino fh : ℕ) : RtContract E n (.removeHandle k ino fh)
      ⟨0, fun r g => (r = none ∧ g = 0) ∨
        ∃ arc, r = some arc ∧ arc.addr = fh ∧ g = {.closing ino} + {.closer k fh .removed}⟩
  | acquire (k : HandleKind) (arc : HandleArc) : RtContract E n (.acquire k arc)
      ⟨{.arc k arc.addr}, fun r g =>
        (r = true ∧ g = {.arc k arc.addr} + {.handle k arc.addr}) ∨
          (r = false ∧ g = {.arc k arc.addr})⟩
  | deref (k : HandleKind) (arc : HandleArc) : RtContract E n (.deref k arc)
      ⟨{.handle k arc.addr}, fun _ g => g = {.handle k arc.addr}⟩
  | dropLease (k : HandleKind) (arc : HandleArc) : RtContract E n (.dropLease k arc)
      ⟨{.handle k arc.addr}, fun _ g => g = {.arc k arc.addr}⟩
  | dropArc (k : HandleKind) (arc : HandleArc) : RtContract E n (.dropArc k arc)
      ⟨{.arc k arc.addr}, fun _ g => g = 0⟩
  | close (k : HandleKind) (arc : HandleArc) : RtContract E n (.close k arc)
      ⟨{.closer k arc.addr .removed}, fun r g =>
        (r = true ∧ g = {.closer k arc.addr .drained}) ∨
          (r = false ∧ g = {.closer k arc.addr .closing})⟩
  | drain (k : HandleKind) (arc : HandleArc) : RtContract E n (.drain k arc)
      ⟨{.closer k arc.addr .closing}, fun _ g => g = {.closer k arc.addr .drained}⟩
  | take (k : HandleKind) (arc : HandleArc) : RtContract E n (.take k arc)
      ⟨{.closer k arc.addr .drained}, fun _ g => g = {.arc k arc.addr} + {.took n k arc.addr}⟩

/-- The tokens of a contract may be owned by its thread. -/
lemma RtContract.own_give {E : Env} {n : ℕ} {i : RtInstr σ} {C : Contract Token i.Resp}
    (hC : RtContract E n i C) {r : i.Resp} {g : Multiset Token} (hg : C.give r g) :
    ∀ x ∈ g, x.own n := by
  cases hC with
  | node id =>
    rcases hg with ⟨_, rfl⟩ | ⟨ref, gen, _, _, rfl⟩
    · simp
    · simp [Token.own, NodeRef.token]
  | nodeOpen id =>
    obtain ⟨ref, gen, _, _, rfl⟩ := hg
    simp [Token.own, NodeRef.token]
  | lease id den =>
    rcases hg with ⟨_, rfl⟩ | ⟨ref, gen, _, _, rfl, _⟩
    · simp [Token.own]
    · simp [Token.own, NodeRef.token]
  | grant ref gen =>
    obtain ⟨_, rfl⟩ := hg
    simp [Token.own, NodeRef.token]
  | retainLookup id =>
    rcases hg with ⟨_, rfl⟩ | ⟨gen, _, rfl⟩
    · simp
    · simp [Token.own]
  | addOpen ref gen =>
    obtain ⟨_, rfl⟩ := hg
    simp [Token.own, NodeRef.token]
  | addOpenCreated ino =>
    rcases hg with ⟨_, rfl⟩ | ⟨_, _, rfl⟩ <;> simp [Token.own]
  | findHandle k fh =>
    rcases hg with ⟨_, rfl⟩ | ⟨arc, _, rfl⟩
    · simp
    · simp [Token.own]
  | removeHandle k ino fh =>
    rcases hg with ⟨_, rfl⟩ | ⟨arc, _, _, rfl⟩
    · simp
    · simp [Token.own]
  | acquire k arc =>
    rcases hg with ⟨_, rfl⟩ | ⟨_, rfl⟩ <;> simp [Token.own]
  | close k arc =>
    rcases hg with ⟨_, rfl⟩ | ⟨_, rfl⟩ <;> simp [Token.own]
  | fs | plusEntry | parentOf | discard | dropNode | forget | leak | removeOpen | addHandle |
      dropArc =>
    obtain rfl := hg
    simp
  | denote | deref | dropLease | drain | take =>
    obtain rfl := hg
    simp [Token.own]

end TypedFuse
