import TypedFuse.Core.Types

/-!
# Open handles

The handle table and the handle records of `runtime.rs`.  A record is shared: the table, the
threads that look it up and the leases on it each own an `Arc`, and the record is dropped with the
last of them.  Its state is guarded by its own mutex and its payload by nothing but the protocol:
the payload stays in place until `close_and_take` moves it out.

A record is identified by the number it was registered under, since every registration takes a
fresh number and allocates a new record.
-/

namespace TypedFuse

/-- `Arc<HandleRecord>`: which record, and the node it was opened on, which never changes. -/
structure HandleArc where
  addr : ℕ
  node : NodeId
  deriving DecidableEq

/-- The mutable part of a `HandleRecord`.  `payload` is `none` once it was moved out or dropped;
`arcs` is the strong count; `dropped` says that `HandleRecord::drop` dropped the payload. -/
structure HandleCell (H : Type) where
  payload : Option H
  active : ℕ
  closing : Bool
  taken : Bool
  arcs : ℕ
  dropped : Bool

/-- `HandleRecord::new`, owned by the table. -/
def HandleCell.new {H : Type} (payload : H) : HandleCell H where
  payload := some payload
  active := 0
  closing := false
  taken := false
  arcs := 1
  dropped := false

/-- `HandleTable` with the records behind its `Arc`s.  Files and directories have tables of their
own and share one counter. -/
structure Handles (P : HandleKind → Type) where
  table : HandleKind → BTreeMap ℕ HandleArc
  nextFh : ℕ
  cells : (k : HandleKind) → BTreeMap ℕ (HandleCell (P k))

namespace Handles

variable {P : HandleKind → Type}

/-- `HandleTable::new`. -/
def new : Handles P where
  table := fun _ => ∅
  nextFh := 1
  cells := fun _ => ∅

/-- Store a record. -/
def setCell (hs : Handles P) (k : HandleKind) (a : ℕ) (cell : HandleCell (P k)) : Handles P :=
  { hs with cells := Function.update hs.cells k ((hs.cells k).insert a cell) }

/-- `add_file` and `add_dir`: register a handle under a fresh number.  Overflow of `next_fh` panics
and is left undefined. -/
def add (hs : Handles P) (k : HandleKind) (node : NodeId) (payload : P k) :
    Option (ℕ × Handles P) :=
  if hs.nextFh + 1 < 2 ^ 64 then
    some (hs.nextFh,
      { setCell hs k hs.nextFh (HandleCell.new payload) with
        table := Function.update hs.table k ((hs.table k).insert hs.nextFh ⟨hs.nextFh, node⟩)
        nextFh := hs.nextFh + 1 })
  else none

/-- The locked part of `Runtime::file` and `Runtime::dir`: clone the registered `Arc`. -/
def find (hs : Handles P) (k : HandleKind) (fh : ℕ) : Option (Option HandleArc × Handles P) :=
  match (hs.table k).lookup fh with
  | none => some (none, hs)
  | some arc =>
    match (hs.cells k).lookup arc.addr with
    | some cell => some (some arc, hs.setCell k arc.addr { cell with arcs := cell.arcs + 1 })
    | none => none

/-- The locked part of `release` and `releasedir`: move the `Arc` out of the table if it belongs
to the inode. -/
def remove (hs : Handles P) (k : HandleKind) (ino fh : ℕ) : Option HandleArc × Handles P :=
  match (hs.table k).lookup fh with
  | none => (none, hs)
  | some arc =>
    if arc.node = ino then
      (some arc, { hs with table := Function.update hs.table k ((hs.table k).erase fh) })
    else (none, hs)

/-- `HandleRecord::acquire`: whether a lease was granted.  The lease owns an `Arc` of its own. -/
def acquire (hs : Handles P) (k : HandleKind) (a : ℕ) : Option (Bool × Handles P) :=
  match (hs.cells k).lookup a with
  | none => none
  | some cell =>
    if cell.closing then some (false, hs)
    else if cell.active + 1 < 2 ^ 32 then
      some (true, hs.setCell k a { cell with active := cell.active + 1, arcs := cell.arcs + 1 })
    else none

/-- `HandleLease::deref`: the payload behind a lease; undefined when it is no longer there. -/
def deref (hs : Handles P) (k : HandleKind) (a : ℕ) : Option (P k) :=
  (hs.cells k).lookup a >>= HandleCell.payload

/-- `HandleLease::drop` up to its `Arc`, which is dropped after it. -/
def dropLease (hs : Handles P) (k : HandleKind) (a : ℕ) : Option (Handles P) :=
  ((hs.cells k).lookup a).map fun cell => hs.setCell k a { cell with active := cell.active - 1 }

/-- Drop an `Arc`; the last one runs `HandleRecord::drop`, which drops a payload that was not
taken. -/
def dropArc (hs : Handles P) (k : HandleKind) (a : ℕ) : Option (Handles P) :=
  ((hs.cells k).lookup a).map fun cell =>
    hs.setCell k a
      (if cell.arcs - 1 = 0 ∧ cell.taken = false then
        { cell with arcs := cell.arcs - 1, payload := none, dropped := true }
      else { cell with arcs := cell.arcs - 1 })

/-- The first section of `close_and_take`: no lease is granted from here on.  Answers whether the
record is drained already, in which case the section goes on to mark it taken. -/
def close (hs : Handles P) (k : HandleKind) (a : ℕ) : Option (Bool × Handles P) :=
  ((hs.cells k).lookup a).map fun cell =>
    if cell.active = 0 then (true, hs.setCell k a { cell with closing := true, taken := true })
    else (false, hs.setCell k a { cell with closing := true })

/-- The section of `close_and_take` after the wait: it runs once no lease is left. -/
def drain (hs : Handles P) (k : HandleKind) (a : ℕ) : Option (Handles P) :=
  match (hs.cells k).lookup a with
  | some cell => if cell.active = 0 then some (hs.setCell k a { cell with taken := true }) else none
  | none => none

/-- `ManuallyDrop::take` of the payload; undefined when it is no longer there. -/
def take (hs : Handles P) (k : HandleKind) (a : ℕ) : Option (P k × Handles P) :=
  match (hs.cells k).lookup a with
  | some cell =>
    match cell.payload with
    | some payload => some (payload, hs.setCell k a { cell with payload := none })
    | none => none
  | none => none

/-- How many handles are registered for an inode. -/
def registered (hs : Handles P) (ino : ℕ) : ℕ :=
  (hs.table .file).countWhere (fun _ arc => arc.node = ino) +
    (hs.table .dir).countWhere (fun _ arc => arc.node = ino)

end Handles

end TypedFuse
