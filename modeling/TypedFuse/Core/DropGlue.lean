import TypedFuse.Core.Soundness

/-!
# Dropping nodes under the mutex of the table

`maybe_drop` removes a slot while the mutex of the node table is held, and the removed slot is
dropped at the end of that statement.  If it has the last `Arc` of its record, the payload of the
node is dropped there, and with it the `NodeRef`s that the payload owns, whose `drop` locks the
mutex once more.  (The number of the slot is pushed on the free stack after that; here it is pushed
with the removal, which nobody can tell while the mutex is held.)

The model is finer than the sections of `NodeTable`: every thread has a stack of the code that it
has still to run, with the code that Rust adds where a value goes out of scope.  Any thread may
call any function of the table whenever it is not inside one, with any `NodeRef` that is not owned
by a payload; a payload may take and give up `NodeRef`s at any time.
-/

namespace TypedFuse

open NodeTable

/-- A `NodeRef`: the inode it leases and the identity of its record. -/
structure Lease where
  id : NodeId
  addr : ℕ
  deriving DecidableEq

namespace NodeTable

variable {N : Type}

/-- Subtract from a counter of a live slot (saturating). -/
def lower (t : NodeTable N) (c : Counter) (n : ℕ) (id : NodeId) : NodeTable N :=
  match t.slot id with
  | some s => t.set id (s.setCounter (s.counter c - n) c)
  | none => t

/-- The first statement of `NodeRef::drop`. -/
def giveBack (t : NodeTable N) (r : Lease) : NodeTable N :=
  match t.slot r.id with
  | some s => if s.record.addr = r.addr then t.lower .leases 1 r.id else t
  | none => t

lemma lower_maybeDrop (t : NodeTable N) (c : Counter) (n : ℕ) (id : NodeId) :
    (t.lower c n id).maybeDrop id = t.decr c n id := rfl

lemma giveBack_maybeDrop (t : NodeTable N) (r : NodeRef N) :
    (t.giveBack ⟨r.id, r.record.addr⟩).maybeDrop r.id = t.dropRef r := by
  unfold giveBack dropRef
  cases t.slot r.id with
  | none => rfl
  | some s =>
    by_cases haddr : s.record.addr = r.record.addr
    · simp only [haddr, if_true]
      rfl
    · simp only [haddr, if_false]

end NodeTable

/-! ## What is left to do -/

/-- A statement of a critical section that reclaims nothing. -/
inductive TableStmt (N : Type) where
  /-- `Cx::get`. -/
  | get (id : NodeId)
  /-- `Cx::insert` of a payload that owns the leases. -/
  | insert (payload : N) (parent : NodeId) (leases : List Lease)
  /-- One more use that is not a lease: `Cx::add_link`, the last section of `entry_for`,
  `retain_lookup` and `add_open`. -/
  | incr (c : Counter) (id : NodeId)
  /-- `Cx::reparent`. -/
  | reparent (id newParent : NodeId)
  /-- `Cx::contains`, and every other section that only reads. -/
  | contains (id : NodeId)

/-- A piece of code that a thread has still to run. -/
inductive Glue (N : Type) where
  /-- `lock(&self.shared.table)`. -/
  | lock
  /-- The drop of the guard. -/
  | unlock
  /-- A statement of a critical section. -/
  | stmt (i : TableStmt N)
  /-- The first statement of `Cx::remove_link`, `forget` and `remove_open`. -/
  | lower (c : Counter) (n : ℕ) (id : NodeId)
  /-- The first statement of `NodeRef::drop`. -/
  | giveBack (r : Lease)
  /-- `NodeTable::maybe_drop`. -/
  | maybeDrop (id : NodeId)
  /-- The drop of an `Arc<NodeRecord<N>>`. -/
  | dropArc (addr : ℕ)
  /-- The drop of a `NodeRef`. -/
  | dropRef (r : Lease)

/-- What a thread may do next when nothing is left to do. -/
inductive TableCall (N : Type) where
  | get (id : NodeId)
  | contains (id : NodeId)
  | insert (payload : N) (parent : NodeId) (leases : List Lease)
  | reparent (id newParent : NodeId)
  | addLink (id : NodeId)
  | removeLink (id : NodeId)
  | addLookup (id : NodeId)
  | forget (ino nlookup : ℕ)
  | addOpen (ino : ℕ)
  | removeOpen (ino : ℕ)
  /-- Drop a `NodeRef`. -/
  | drop (r : Lease)
  /-- Hand a `NodeRef` over to a payload that is shared. -/
  | store (addr : ℕ) (r : Lease)
  /-- Take a `NodeRef` out of a payload. -/
  | take (addr : ℕ) (r : Lease)

namespace TableCall

variable {N : Type}

/-- The body of a function that reclaims nothing. -/
def plain (i : TableStmt N) : List (Glue N) :=
  [.lock, .stmt i, .unlock]

/-- The body of a function that gives a use of a node back. -/
def reclaiming (c : Counter) (n : ℕ) (id : NodeId) : List (Glue N) :=
  [.lock, .lower c n id, .maybeDrop id, .unlock]

/-- The code that a call runs. -/
def body : TableCall N → List (Glue N)
  | .get id => plain (.get id)
  | .contains id => plain (.contains id)
  | .insert payload parent leases => plain (.insert payload parent leases)
  | .reparent id newParent => plain (.reparent id newParent)
  | .addLink id => plain (.incr .links id)
  | .removeLink id => reclaiming .links 1 id
  | .addLookup id => plain (.incr .lookups id)
  | .forget ino nlookup => reclaiming .lookups nlookup ino
  | .addOpen ino => plain (.incr .opens ino)
  | .removeOpen ino => reclaiming .opens 1 ino
  | .drop r => [.dropRef r]
  | .store _ _ => []
  | .take _ _ => []

end TableCall

/-! ## The threads -/

/-- The node table with its mutex, the strong counts of the records, the `NodeRef`s that payloads
own (with the identity of the owner), those that no payload owns, and the threads. -/
structure DropState (N : Type) where
  table : NodeTable N
  mutex : Option ℕ
  strong : ℕ → ℕ
  owned : List (ℕ × Lease)
  held : Multiset Lease
  todo : List (List (Glue N))

/-- A thread calls a function, or it runs the next piece of its code. -/
inductive DropAction (N : Type) where
  | call (n : ℕ) (f : TableCall N)
  | run (n : ℕ)

namespace DropState

variable {N : Type}

/-- The `NodeRef`s that the payload of a record owns, in the order in which they are dropped. -/
def ownedBy (s : DropState N) (addr : ℕ) : List Lease :=
  (s.owned.filter fun x => x.1 = addr).map Prod.snd

/-- The thread goes on with other code. -/
def goesOn (s : DropState N) (n : ℕ) (ts : List (Glue N)) : DropState N :=
  { s with todo := s.todo.set n ts }

/-- Run a statement of a critical section.  A statement that panics (an exhausted number or
counter) does nothing; the guard is dropped, and after it the arguments of the function. -/
def exec (s : DropState N) (n : ℕ) (rest : List (Glue N)) : TableStmt N → DropState N
  | .get id =>
    match s.table.get id with
    | some (some r, t) =>
      { s with
        table := t
        strong := Function.update s.strong r.record.addr (s.strong r.record.addr + 1)
        held := ⟨id, r.record.addr⟩ ::ₘ s.held }.goesOn n rest
    | _ => s.goesOn n rest
  | .insert payload parent leases =>
    match s.table.insert payload parent with
    | some (_, t) =>
      { s with
        table := t
        strong := Function.update s.strong (s.table.issued.length + 1) 1
        owned := s.owned ++ leases.map (Prod.mk (s.table.issued.length + 1)) }.goesOn n rest
    | none => s.goesOn n (rest ++ leases.map Glue.dropRef)
  | .incr c id =>
    match s.table.incr c id with
    | some (_, t) => { s with table := t }.goesOn n rest
    | none => s.goesOn n rest
  | .reparent id newParent =>
    { s with table := s.table.reparent id newParent }.goesOn n rest
  | .contains _ => s.goesOn n rest

/-- Run the next piece of code.  The last `Arc` of a record drops the payload, and with it the
`NodeRef`s that the payload owns; a `NodeRef` runs its `drop` and then drops its own `Arc`. -/
def step (s : DropState N) (n : ℕ) (rest : List (Glue N)) : Glue N → Option (DropState N)
  | .lock => if s.mutex = none then some ({ s with mutex := some n }.goesOn n rest) else none
  | .unlock => some ({ s with mutex := none }.goesOn n rest)
  | .stmt i => some (s.exec n rest i)
  | .lower c m id => some ({ s with table := s.table.lower c m id }.goesOn n rest)
  | .giveBack r => some ({ s with table := s.table.giveBack r }.goesOn n rest)
  | .maybeDrop id =>
    match s.table.slot id with
    | some sl =>
      if sl.droppable then
        -- the removed slot is dropped at the end of the statement
        some ({ s with table := s.table.maybeDrop id }.goesOn n (.dropArc sl.record.addr :: rest))
      else some (s.goesOn n rest)
    | none => some (s.goesOn n rest)
  | .dropArc addr =>
    let strong := Function.update s.strong addr (s.strong addr - 1)
    if s.strong addr = 1 then
      some ({ s with
        strong := strong
        owned := s.owned.filter fun x => x.1 ≠ addr }.goesOn n
          ((s.ownedBy addr).map Glue.dropRef ++ rest))
    else some ({ s with strong := strong }.goesOn n rest)
  | .dropRef r =>
    some (s.goesOn n
      (.lock :: .giveBack r :: .maybeDrop r.id :: .unlock :: .dropArc r.addr :: rest))

/-- The thread runs its next piece of code, if it can. -/
def run (s : DropState N) (n : ℕ) : Option (DropState N) :=
  match s.todo[n]? with
  | some (g :: rest) => s.step n rest g
  | _ => none

/-- What a call does to the `NodeRef`s that it is given. -/
def moves (s : DropState N) : TableCall N → Option (DropState N)
  | .insert _ _ leases =>
    if (leases : Multiset Lease) ≤ s.held then some { s with held := s.held - leases } else none
  | .drop r => if r ∈ s.held then some { s with held := s.held.erase r } else none
  | .store addr r =>
    if r ∈ s.held ∧ 0 < s.strong addr then
      some { s with held := s.held.erase r, owned := s.owned ++ [(addr, r)] }
    else none
  | .take addr r =>
    if (addr, r) ∈ s.owned then
      some { s with held := r ::ₘ s.held, owned := s.owned.erase (addr, r) }
    else none
  | _ => some s

/-- The state after an action. -/
def next (s : DropState N) : DropAction N → Option (DropState N)
  | .call n f =>
    match s.todo[n]? with
    | some [] => (s.moves f).map fun s' => s'.goesOn n f.body
    | _ => none
  | .run n => s.run n

/-- `Runtime::new`, with so many threads. -/
def start (fs : NodeFs) (threads : ℕ) : DropState fs.Node where
  table := (Runtime.new fs).table
  mutex := none
  strong := fun addr => if addr = 0 then 1 else 0
  owned := []
  held := 0
  todo := List.replicate threads []

/-- The second state is reached from the first one by actions that are allowed. -/
def Reaches (allow : DropState N → DropAction N → Prop) :
    DropState N → DropState N → Prop :=
  Relation.ReflTransGen fun s s' => ∃ a, allow s a ∧ s.next a = some s'

/-- The thread waits for the mutex, which it holds itself. -/
def WaitsForItself (s : DropState N) (n : ℕ) : Prop :=
  ∃ rest, s.todo[n]? = some (.lock :: rest) ∧ s.mutex = some n

end DropState

end TypedFuse
