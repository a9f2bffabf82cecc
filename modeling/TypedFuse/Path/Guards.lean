import TypedFuse.Core.Frame
import TypedFuse.Path.Links
import TypedFuse.Path.PathFs

/-!
# The guards of the path adapter

The tokens of a callback are its guards: the read or write guard of the operations lock and the
guard of the namespace.  Whoever holds the write guard or the guard of the namespace knows what the
namespace is, so these tokens carry it; the guard of the namespace also says how far its holder got
between the namespace and the inode table.

`PathInv` is what the guards of all threads mean together: the locks exclude what they should
(`Guarded`), names and links are in balance (`Linked`), and keys lead to the nodes they were made
for (`Keyed`).
-/

namespace TypedFuse

open Conc NodeTable TypedFuse.Runtime

/-- How far the holder of the namespace got between the namespace and the inode table. -/
inductive NsPhase where
  /-- The two agree. -/
  | level
  /-- A key was taken for a node that is not inserted yet. -/
  | keyed (key : ℕ)
  /-- A node was inserted and is not recorded yet. -/
  | inserted (key : ℕ) (id : NodeId)
  /-- A name was removed and its link is still counted. -/
  | unnamed (id : NodeId)
  deriving DecidableEq

/-- The node whose link is counted without a name. -/
def NsPhase.owes : NsPhase → Option NodeId
  | .inserted _ id => some id
  | .unnamed id => some id
  | _ => none

/-- A guard that a running callback holds. -/
inductive PathToken where
  /-- A read guard of the operations lock. -/
  | shared
  /-- The write guard, the namespace, and the node whose link is still to be added for a name. -/
  | excl (ns : Namespace) (lent : Option NodeId)
  /-- The guard of the namespace. -/
  | sect (ns : Namespace) (phase : NsPhase)

/-- The guards of all threads, sorted by their kind. -/
structure PathView where
  shared : ℕ
  excl : Multiset (Namespace × Option NodeId)
  sect : Multiset (Namespace × NsPhase)

namespace PathView

/-- No guards. -/
def empty : PathView := ⟨0, 0, 0⟩

/-- Add one guard. -/
def add (v : PathView) : PathToken → PathView
  | .shared => { v with shared := v.shared + 1 }
  | .excl ns lent => { v with excl := (ns, lent) ::ₘ v.excl }
  | .sect ns phase => { v with sect := (ns, phase) ::ₘ v.sect }

instance : LeftCommutative fun (t : PathToken) (v : PathView) => v.add t where
  left_comm := by
    intro x y v
    cases x <;> cases y <;> simp only [add, Multiset.cons_swap]

/-- The links without a name. -/
def owed (v : PathView) (i : NodeId) : ℕ :=
  v.sect.countP fun x => x.2.owes = some i

/-- The names without a link. -/
def lent (v : PathView) (i : NodeId) : ℕ :=
  v.excl.countP fun x => x.2 = some i

variable (v : PathView) (ns : Namespace) (i : NodeId)

@[simp] lemma owed_add_shared : (v.add .shared).owed i = v.owed i := rfl

@[simp] lemma owed_add_excl (lent : Option NodeId) :
    (v.add (.excl ns lent)).owed i = v.owed i := rfl

@[simp] lemma owed_add_sect (phase : NsPhase) :
    (v.add (.sect ns phase)).owed i = v.owed i + if phase.owes = some i then 1 else 0 :=
  Multiset.countP_cons _ _ _

@[simp] lemma lent_add_shared : (v.add .shared).lent i = v.lent i := rfl

@[simp] lemma lent_add_sect (phase : NsPhase) : (v.add (.sect ns phase)).lent i = v.lent i := rfl

@[simp] lemma lent_add_excl (lent : Option NodeId) :
    (v.add (.excl ns lent)).lent i = v.lent i + if lent = some i then 1 else 0 :=
  Multiset.countP_cons _ _ _

variable {v i}

lemma owed_eq_zero (h : v.sect = 0) : v.owed i = 0 := by
  rw [owed, h, Multiset.countP_zero]

lemma lent_eq_zero (h : v.excl = 0) : v.lent i = 0 := by
  rw [lent, h, Multiset.countP_zero]

end PathView

/-- Sort guards by their kind. -/
def pathView (T : Multiset PathToken) : PathView :=
  T.foldr (fun t v => v.add t) PathView.empty

lemma pathView_cons (x : PathToken) (T : Multiset PathToken) :
    pathView (x ::ₘ T) = (pathView T).add x :=
  Multiset.foldr_cons _ _ _ _

@[simp] lemma pathView_single (x : PathToken) (T : Multiset PathToken) :
    pathView ({x} + T) = (pathView T).add x := by
  rw [Multiset.singleton_add, pathView_cons]

@[simp] lemma pathView_pair (x y : PathToken) (T : Multiset PathToken) :
    pathView ({x} + {y} + T) = ((pathView T).add y).add x := by
  rw [add_assoc, pathView_single, pathView_single]

variable {P : PathFilesystem}

/-- The locks and the guards of all threads. -/
structure Guarded (s : PathState P) (v : PathView) : Prop where
  readers : s.readers = v.shared
  writers : v.excl.card = if s.writing then 1 else 0
  /-- The write guard excludes read guards. -/
  apart : s.writing = true → v.shared = 0
  holders : v.sect.card = if s.nsLocked then 1 else 0
  /-- The holder of the write guard knows the namespace. -/
  exclNs : ∀ x ∈ v.excl, x.1 = s.ns
  /-- The holder of the namespace knows it. -/
  sectNs : ∀ x ∈ v.sect, x.1 = s.ns

/-- The keys in the payloads of live nodes.  A live node is the one its key stands for, unless it
was only just inserted. -/
structure Keyed (t : NodeTable PathNode) (ns : Namespace)
    (phases : Multiset (Namespace × NsPhase)) : Prop where
  slotKey : ∀ i sl, t.slot i = some sl →
    ns.idForNode sl.record.payload.key = some i ∨
      ∃ x ∈ phases, x.2 = .inserted sl.record.payload.key i
  slotLt : ∀ i sl, t.slot i = some sl → sl.record.payload.key < ns.nextKey
  keysLt : ∀ k j, ns.idForNode k = some j → k < ns.nextKey
  keyed : ∀ x ∈ phases, ∀ k, x.2 = .keyed k →
    k < ns.nextKey ∧ ns.idForNode k = none ∧
      ∀ i sl, t.slot i = some sl → sl.record.payload.key ≠ k
  inserted : ∀ x ∈ phases, ∀ k i, x.2 = .inserted k i →
    k < ns.nextKey ∧ ns.idForNode k = none

/-- What the guards of all threads mean. -/
structure PathInv (exact : Prop) (s : RtState (PathNodeFs.sig P)) (v : PathView) : Prop where
  guarded : Guarded s.fs v
  linked : Linked exact (s.table.count .links) s.fs.ns v.owed v.lent
  keyed : Keyed s.table s.fs.ns v.sect

/-! ## Contracts -/

/-- The two sides of the operations lock. -/
inductive Side where
  | read
  | write

/-- The guard of a side of the operations lock, when the namespace is `ns`. -/
def Side.guard (ns : Namespace) : Side → PathToken
  | .read => .shared
  | .write => .excl ns none

/-- Use an own step of the adapter as an instruction of the runtime. -/
abbrev PathInstr.rt (i : PathInstr P) : RtInstr (PathNodeFs.sig P) :=
  .fs (.own i)

/-- The contracts of the instructions.  `exact` is the assumption that `link` overwrites no name. -/
inductive PathContract (exact : Prop) :
    (i : RtInstr (PathNodeFs.sig P)) → Contract PathToken i.Resp → Prop where
  /-- The runtime's own sections. -/
  | runtime (i : RtInstr (PathNodeFs.sig P)) (h : ∀ j, i ≠ .fs j) : PathContract exact i .free
  | readLock : PathContract exact (PathInstr.rt .readLock) ⟨0, fun _ g => g = {.shared}⟩
  | readUnlock : PathContract exact (PathInstr.rt .readUnlock) ⟨{.shared}, fun _ g => g = 0⟩
  | writeLock : PathContract exact (PathInstr.rt .writeLock)
      ⟨0, fun _ g => ∃ ns, g = {.excl ns none}⟩
  | writeUnlock (ns : Namespace) : PathContract exact (PathInstr.rt .writeUnlock)
      ⟨{.excl ns none}, fun _ g => g = 0⟩
  | nodeId (key : ℕ) : PathContract exact (PathInstr.rt (.nodeId key)) .free
  | pathFor (id : NodeId) : PathContract exact (PathInstr.rt (.pathFor id)) .free
  /-- The holder of the write guard knows the answer. -/
  | pathForExcl (ns : Namespace) (id : NodeId) : PathContract exact (PathInstr.rt (.pathFor id))
      ⟨{.excl ns none}, fun r g => ns.pathFor id = some r ∧ g = {.excl ns none}⟩
  | nsLock (m : Side) (ns : Namespace) : PathContract exact (PathInstr.rt .nsLock)
      ⟨{m.guard ns}, fun _ g => ∃ ns', (m = .write → ns' = ns) ∧
        g = {m.guard ns'} + {.sect ns' .level}⟩
  | nsUnlock (ns : Namespace) : PathContract exact (PathInstr.rt .nsUnlock)
      ⟨{.sect ns .level}, fun _ g => g = 0⟩
  | known (ns : Namespace) (d : Dentry) : PathContract exact (PathInstr.rt (.known d))
      ⟨{.sect ns .level}, fun r g => r = ns.find d ∧ g = {.sect ns .level}⟩
  | find (ns : Namespace) (d : Dentry) : PathContract exact (PathInstr.rt (.find d))
      ⟨{.sect ns .level}, fun r g => r = ns.find d ∧ g = {.sect ns .level}⟩
  | takeKey (m : Side) (ns : Namespace) : PathContract exact (PathInstr.rt .takeKey)
      ⟨{m.guard ns} + {.sect ns .level}, fun r g => ∃ ns', ns.takeKey = some (r, ns') ∧
        g = {m.guard ns'} + {.sect ns' (.keyed r)}⟩
  | insert (ns : Namespace) (key : ℕ) (parent : NodeId) :
      PathContract exact (.fs (.insert (σ := PathNodeFs.sig P) ⟨key⟩ parent))
        ⟨{.sect ns (.keyed key)}, fun id g => g = {.sect ns (.inserted key id)}⟩
  | record (m : Side) (ns : Namespace) (key : ℕ) (id : NodeId) (d : Dentry)
      (h : ns.find d = none) : PathContract exact (PathInstr.rt (.record key id d))
      ⟨{m.guard ns} + {.sect ns (.inserted key id)}, fun _ g =>
        g = {m.guard (ns.record key id d)} + {.sect (ns.record key id d) .level}⟩
  | remove (m : Side) (ns : Namespace) (d : Dentry) : PathContract exact (PathInstr.rt (.remove d))
      ⟨{m.guard ns} + {.sect ns .level}, fun r g => r = ns.find d ∧
        g = {m.guard (ns.remove d).2} + {.sect (ns.remove d).2 (r.elim .level .unnamed)}⟩
  | removeLink (ns : Namespace) (id : NodeId) :
      PathContract exact (.fs (.removeLink (σ := PathNodeFs.sig P) id))
        ⟨{.sect ns (.unnamed id)}, fun _ g => g = {.sect ns .level}⟩
  /-- A node that has just lost a name gets another one. -/
  | rebind (ns : Namespace) (id : NodeId) (d : Dentry) (h : ns.find d = none) :
      PathContract exact (PathInstr.rt (.addAlias id d))
        ⟨{.excl ns none} + {.sect ns (.unnamed id)}, fun _ g =>
          g = {.excl (ns.addAlias id d) none} + {.sect (ns.addAlias id d) .level}⟩
  /-- A node with a path gets a name before its link. -/
  | addAlias (ns : Namespace) (id : NodeId) (d : Dentry)
      (h : id = NodeId.ROOT ∨ (ns.names id).Nonempty) :
      PathContract exact (PathInstr.rt (.addAlias id d))
        ⟨{.excl ns none} + {.sect ns .level}, fun _ g => ∃ lent,
          (lent = some id ∨ (lent = none ∧ ¬exact)) ∧
          g = {.excl (ns.addAlias id d) lent} + {.sect (ns.addAlias id d) .level}⟩
  | addLink (ns : Namespace) (id : NodeId) (lent : Option NodeId)
      (h : lent = some id ∨ (lent = none ∧ ¬exact)) :
      PathContract exact (.fs (.addLink (σ := PathNodeFs.sig P) id))
        ⟨{.excl ns lent}, fun _ g => g = {.excl ns none}⟩
  | reparent (id newParent : NodeId) :
      PathContract exact (.fs (.reparent (σ := PathNodeFs.sig P) id newParent)) .free
  | inner (c : PathCall P.Payload) : PathContract exact (PathInstr.rt (.inner c)) .free

/-! ## What the guards exclude -/

namespace Guarded

variable {s : PathState P} {v : PathView} {ns : Namespace} {phase : NsPhase} {lent : Option NodeId}

/-- The guard of the namespace is the only one. -/
lemma sect_unique (h : Guarded s (v.add (.sect ns phase))) :
    v.sect = 0 ∧ s.nsLocked = true ∧ s.ns = ns := by
  have hcard := h.holders
  have hns := h.sectNs (ns, phase) (Multiset.mem_cons_self _ _)
  rw [PathView.add, Multiset.card_cons] at hcard
  split at hcard
  · next hl => exact ⟨Multiset.card_eq_zero.mp (by omega), hl, hns.symm⟩
  · omega

/-- The write guard is the only guard of the operations lock. -/
lemma excl_unique (h : Guarded s (v.add (.excl ns lent))) :
    v.excl = 0 ∧ v.shared = 0 ∧ s.writing = true ∧ s.ns = ns := by
  have hcard := h.writers
  have hns := h.exclNs (ns, lent) (Multiset.mem_cons_self _ _)
  rw [PathView.add, Multiset.card_cons] at hcard
  split at hcard
  · next hw => exact ⟨Multiset.card_eq_zero.mp (by omega), h.apart hw, hw, hns.symm⟩
  · omega

/-- A read guard excludes the write guard. -/
lemma shared_apart (h : Guarded s (v.add .shared)) : v.excl = 0 ∧ s.writing = false := by
  have hcard := h.writers
  have hw : s.writing = false := by
    by_contra hne
    have hzero : v.shared + 1 = 0 := h.apart (Bool.eq_true_of_not_eq_false hne)
    omega
  rw [hw] at hcard
  exact ⟨Multiset.card_eq_zero.mp hcard, hw⟩

end Guarded

end TypedFuse
