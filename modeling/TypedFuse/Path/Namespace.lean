import Mathlib.Data.Finset.Max
import Mathlib.Data.List.Lex
import Mathlib.Data.Prod.Lex
import TypedFuse.Core.Types

/-!
# The namespace of the path adapter

`Namespace` of `path_fs.rs`: which name of which directory is bound to which node, the names of
every node, and which node the key in a `PathNode` stands for.  Paths are the byte strings of
`PathBuf`, and a node is addressed by its smallest name, whose directory is addressed in the same
way.

`Namespace.remove` and `Namespace.addAlias` are the two changes of the bindings; the lemmas say
what they do to a lookup by name and to the set of names of a node.
-/

namespace TypedFuse

/-- A path: the bytes of a `PathBuf`. -/
abbrev Path : Type := List UInt8

namespace Path

/-- The path `/`. -/
def root : Path := [47]

/-- `PathBuf::push` on Unix: an absolute argument replaces the path, and a separator is added
unless the path is empty or ends in one. -/
def push (p : Path) (name : Name) : Path :=
  if name.head? = some 47 then name
  else if p = [] ∨ p.getLast? = some 47 then p ++ name
  else p ++ 47 :: name

end Path

/-- A name in a directory. -/
structure Dentry where
  parent : NodeId
  name : Name
  deriving DecidableEq

namespace Dentry

/-- What names are compared by: first the directory, then the bytes of the name. -/
def sortKey (d : Dentry) : Lex (ℕ × List ℕ) :=
  toLex (d.parent, d.name.map UInt8.toNat)

lemma sortKey_injective : Function.Injective sortKey := by
  rintro ⟨p, n⟩ ⟨p', n'⟩ h
  have hpair := Prod.mk.inj (toLex.injective h)
  have hname : n = n' :=
    List.map_injective_iff.mpr (fun a b hab => UInt8.toNat_inj.mp hab) hpair.2
  have hparent : p = p' := hpair.1
  rw [hname, hparent]

instance : LinearOrder Dentry :=
  LinearOrder.lift' sortKey sortKey_injective

end Dentry

/-- `Namespace`. -/
structure Namespace where
  byName : BTreeMap Dentry NodeId
  aliases : BTreeMap NodeId (Finset Dentry)
  keys : BTreeMap ℕ NodeId
  nextKey : ℕ

namespace Namespace

/-- `Namespace::new`. -/
def new : Namespace where
  byName := ∅
  aliases := ∅
  keys := (∅ : BTreeMap ℕ NodeId).insert 1 NodeId.ROOT
  nextKey := 2

/-- The node bound to a name. -/
def find (ns : Namespace) (d : Dentry) : Option NodeId :=
  ns.byName.lookup d

/-- The names of a node. -/
def names (ns : Namespace) (id : NodeId) : Finset Dentry :=
  (ns.aliases.lookup id).getD ∅

/-- `Namespace::id_for_node`. -/
def idForNode (ns : Namespace) (key : ℕ) : Option NodeId :=
  ns.keys.lookup key

/-- The name by which a node is addressed: the first one of its set. -/
def firstAlias (ns : Namespace) (id : NodeId) : Option Dentry :=
  if h : (ns.names id).Nonempty then some ((ns.names id).min' h) else none

/-- `Namespace::path_for` with a bound on its recursion; undefined if the bound is too small. -/
def pathWithin (ns : Namespace) : ℕ → NodeId → Option (Option Path)
  | fuel, id =>
    if id = NodeId.ROOT then some (some Path.root)
    else
      match ns.firstAlias id with
      | none => some none
      | some d =>
        match fuel with
        | 0 => none
        | fuel + 1 =>
          match ns.pathWithin fuel d.parent with
          | none => none
          | some parent => some (parent.map fun p => p.push d.name)

/-- `Namespace::path_for`.  Every step of the recursion leaves a node that has a name, so a
recursion that is deeper than there are such nodes does not end; it is left undefined. -/
def pathFor (ns : Namespace) (id : NodeId) : Option (Option Path) :=
  ns.pathWithin ns.aliases.keys.card id

/-- The key for the next node.  Overflow panics and is left undefined. -/
def takeKey (ns : Namespace) : Option (ℕ × Namespace) :=
  if ns.nextKey + 1 < 2 ^ 64 then some (ns.nextKey, { ns with nextKey := ns.nextKey + 1 }) else none

/-- `Namespace::add_alias`. -/
def addAlias (ns : Namespace) (id : NodeId) (d : Dentry) : Namespace :=
  { ns with
    byName := ns.byName.insert d id
    aliases := ns.aliases.insert id (insert d (ns.names id)) }

/-- The end of `Namespace::insert`: store a new node under its key and its name. -/
def record (ns : Namespace) (key : ℕ) (id : NodeId) (d : Dentry) : Namespace :=
  { ns.addAlias id d with keys := ns.keys.insert key id }

/-- `Namespace::remove`. -/
def remove (ns : Namespace) (d : Dentry) : Option NodeId × Namespace :=
  match ns.find d with
  | none => (none, ns)
  | some id =>
    let rest := (ns.names id).erase d
    (some id,
      { ns with
        byName := ns.byName.erase d
        aliases :=
          match ns.aliases.lookup id with
          | none => ns.aliases
          | some _ => if rest = ∅ then ns.aliases.erase id else ns.aliases.insert id rest })

/-! ## Lookups after a change -/

variable {ns : Namespace} {d d' : Dentry} {id i : NodeId}

/-- No set of names is stored empty. -/
def NoEmptyAlias (ns : Namespace) : Prop :=
  ∀ id, ns.aliases.lookup id ≠ some ∅

@[simp] lemma find_addAlias : (ns.addAlias id d).find d' = if d' = d then some id else ns.find d' :=
  BTreeMap.lookup_insert_ite ns.byName d d' id

@[simp] lemma names_addAlias :
    (ns.addAlias id d).names i = if i = id then insert d (ns.names id) else ns.names i := by
  unfold names addAlias
  rw [BTreeMap.lookup_insert_ite]
  split <;> rfl

lemma remove_of_unbound (h : ns.find d = none) : ns.remove d = (none, ns) := by
  unfold remove
  rw [h]

lemma remove_fst : (ns.remove d).1 = ns.find d := by
  unfold remove
  split
  · next h => exact h.symm
  · next h => exact h.symm

lemma find_remove : (ns.remove d).2.find d' = if d' = d then none else ns.find d' := by
  cases h : ns.find d with
  | none =>
    rw [remove_of_unbound h]
    split
    · next hd => rw [hd, h]
    · rfl
  | some id =>
    unfold remove
    rw [h]
    exact BTreeMap.lookup_erase_ite ns.byName d d'

lemma names_remove (h : ns.find d = some id) :
    (ns.remove d).2.names i = if i = id then (ns.names id).erase d else ns.names i := by
  unfold remove
  rw [h]
  dsimp only
  unfold names
  cases ha : ns.aliases.lookup id with
  | none =>
    dsimp only
    split
    · next hi => rw [hi, ha]; rfl
    · rfl
  | some set =>
    dsimp only [Option.getD_some]
    split
    · next he =>
      rw [BTreeMap.lookup_erase_ite]
      split
      · exact he.symm
      · rfl
    · rw [BTreeMap.lookup_insert_ite]
      split <;> rfl

lemma firstAlias_eq_none : ns.firstAlias id = none ↔ ns.names id = ∅ := by
  unfold firstAlias
  split
  · next h => simp [h.ne_empty]
  · next h => simpa using Finset.not_nonempty_iff_eq_empty.mp h

lemma mem_of_firstAlias (h : ns.firstAlias id = some d) : d ∈ ns.names id := by
  unfold firstAlias at h
  split at h
  · next hne =>
    obtain rfl := Option.some.inj h
    exact Finset.min'_mem _ hne
  · cases h

/-- A node without a name has no path. -/
lemma pathFor_of_names_empty (hid : id ≠ NodeId.ROOT) (h : ns.names id = ∅) :
    ns.pathFor id = some none := by
  unfold pathFor pathWithin
  rw [if_neg hid, firstAlias_eq_none.mpr h]

/-- A node with a path is the root or has a name. -/
lemma names_nonempty_of_pathFor {p : Path} (hid : id ≠ NodeId.ROOT)
    (h : ns.pathFor id = some (some p)) : (ns.names id).Nonempty := by
  by_contra hne
  rw [pathFor_of_names_empty hid (Finset.not_nonempty_iff_eq_empty.mp hne)] at h
  cases h

end Namespace

end TypedFuse
