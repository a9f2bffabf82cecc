import TypedFuse.Data.ObjectTree
import TypedFuse.Path.PathFs

/-!
# Inner filesystems that are trees

An inner filesystem has the names of POSIX if its state shows a tree of objects and its calls act on
the tree as POSIX says: `rmdir` and a replacing `rename` take empty directories only, `link` takes
neither directories nor bound names, a `rename` between two names of one object does nothing, and a
listing emits names that the directory has.  Since every state shows a well-formed tree, a directory
is never moved below itself.
-/

namespace TypedFuse

/-- A component of a path. -/
structure Name.Ordinary (name : Name) : Prop where
  ne_nil : name ≠ []
  separator : 47 ∉ name
  ne_dot : name ≠ Name.dot
  ne_dotDot : name ≠ Name.dotDot

instance : DecidablePred Name.Ordinary := fun name =>
  decidable_of_iff (name ≠ [] ∧ 47 ∉ name ∧ name ≠ Name.dot ∧ name ≠ Name.dotDot)
    ⟨fun ⟨h₁, h₂, h₃, h₄⟩ => ⟨h₁, h₂, h₃, h₄⟩, fun ⟨h₁, h₂, h₃, h₄⟩ => ⟨h₁, h₂, h₃, h₄⟩⟩

namespace Path

/-- The components of a path. -/
def components (p : Path) : List Name :=
  (p.splitOn 47).filter fun name => name ≠ []

/-- `PathBuf::push` adds a component. -/
lemma components_push (p : Path) {name : Name} (h : name.Ordinary) :
    (p.push name).components = p.components ++ [name] := by
  have hhead : name.head? ≠ some 47 := fun hhead => h.separator (List.mem_of_head? hhead)
  have hname : name.splitOn 47 = [name] := List.splitOn_eq_singleton h.separator
  have hkeep : [name].filter (fun name => name ≠ []) = [name] := by simp [h.ne_nil]
  unfold push
  rw [if_neg hhead]
  split
  · next hp =>
    rcases hp with rfl | hlast
    · unfold components
      rw [List.nil_append, hname]
      simp [h.ne_nil]
    · obtain ⟨q, rfl⟩ := List.getLast?_eq_some_iff.mp hlast
      unfold components
      rw [List.append_assoc, List.singleton_append, List.splitOn_append_cons_self,
        List.splitOn_append_cons_self, hname, List.filter_append, List.filter_append, hkeep]
      simp
  · unfold components
    rw [List.splitOn_append_cons_self, hname, List.filter_append, hkeep]

end Path

/-- The names that a listing emits, whatever the sink takes. -/
def Listing.Emits {D : Type} (Q : Name → Prop) : Listing D → Prop
  | .finish _ => True
  | .emit name _ _ next => Q name ∧ ∀ taken, Emits Q (next taken)

lemma Listing.Emits.mono {D : Type} {Q Q' : Name → Prop} (hQ : ∀ name, Q name → Q' name)
    {listing : Listing D} (h : listing.Emits Q) : listing.Emits Q' := by
  induction listing with
  | finish result => trivial
  | emit name data nextOffset next ih => exact ⟨hQ name h.1, fun taken => ih taken (h.2 taken)⟩

end TypedFuse

namespace ObjectTree

open TypedFuse

variable {Obj : Type} {Payload : HandleKind → Type} {α : Type} (T : ObjectTree Obj Name)

/-- The object that a path leads to. -/
def resolve (p : Path) : Option Obj :=
  T.walk p.components

/-- A call that fails leaves the tree alone. -/
def OnOk (r : Fallible α) (change : ObjectTree Obj Name → Prop) (T' : ObjectTree Obj Name) :
    Prop :=
  match r with
  | .error _ => T' = T
  | .ok _ => change T'

lemma OnOk.mono {T T' : ObjectTree Obj Name} {r : Fallible α}
    {change change' : ObjectTree Obj Name → Prop} (h : T.OnOk r change T')
    (hchange : ∀ T', change T' → change' T') : T.OnOk r change' T' := by
  cases r with
  | error e => exact h
  | ok a => exact hchange T' h

/-- A new object in a directory. -/
def Makes (p : Path) (name : Name) (dir : Prop) (T' : ObjectTree Obj Name) : Prop :=
  ∃ a x, T.resolve p = some a ∧ T.child a name = none ∧ T.Fresh x ∧ T' = T.make a name x dir

/-- The tree after a call that has given an answer. -/
def Answers : (c : PathCall Payload) → c.Resp → ObjectTree Obj Name → Prop
  | .lookup p name _, r, T' => T' = T ∧ ∀ attr, r = Except.ok (some attr) →
      ∃ a x, T.resolve p = some a ∧ T.child a name = some x
  | .mknod p name _ _ _ _, r, T' => T.OnOk r (T.Makes p name False) T'
  | .mkdir p name _ _ _, r, T' => T.OnOk r (T.Makes p name True) T'
  | .symlink p name _ _, r, T' => T.OnOk r (T.Makes p name False) T'
  | .create p name _ _ _ _, r, T' => T.OnOk r
      (fun T' => T.Makes p name False T' ∨
        ∃ a x, T.resolve p = some a ∧ T.child a name = some x ∧ T' = T) T'
  | .unlink p name _, r, T' => T.OnOk r
      (fun T' => ∃ a x, T.resolve p = some a ∧ T.child a name = some x ∧ ¬ T.isDir x ∧
        T' = T.set a name none) T'
  | .rmdir p name _, r, T' => T.OnOk r
      (fun T' => ∃ a x, T.resolve p = some a ∧ T.child a name = some x ∧ T.isDir x ∧
        (∀ m, T.child x m = none) ∧ T' = T.set a name none) T'
  | .rename p name p' name' _, r, T' => T.OnOk r
      (fun T' => ∃ a a' x, T.resolve p = some a ∧ T.resolve p' = some a' ∧
        T.child a name = some x ∧ T.Renames a name a' name' x T') T'
  | .link p p' name' _, r, T' => T.OnOk r
      (fun T' => ∃ x a', T.resolve p = some x ∧ T.resolve p' = some a' ∧ ¬ T.isDir x ∧
        T.child a' name' = none ∧ T' = T.set a' name' (some x)) T'
  | .readdir p _ _ _, r, T' => T' = T ∧ Listing.Emits (fun name => name = Name.dot ∨
      name = Name.dotDot ∨ ∃ a x, T.resolve p = some a ∧ T.child a name = some x) r
  | .readdirplus p _ _ _, r, T' => T' = T ∧ Listing.Emits (fun name => name = Name.dot ∨
      name = Name.dotDot ∨ ∃ a x, T.resolve p = some a ∧ T.child a name = some x) r
  | _, _, T' => T' = T

end ObjectTree

namespace TypedFuse

/-- The names in a call. -/
def PathCall.names {Payload : HandleKind → Type} : PathCall Payload → List Name
  | .lookup _ name _ | .mknod _ name _ _ _ _ | .mkdir _ name _ _ _ | .symlink _ name _ _
  | .create _ name _ _ _ _ | .unlink _ name _ | .rmdir _ name _ | .link _ _ name _ => [name]
  | .rename _ name _ newname _ => [name, newname]
  | _ => []

/-- The paths in a call. -/
def PathCall.paths {Payload : HandleKind → Type} : PathCall Payload → List Path
  | .getattr path _ _ | .setattr path _ _ _ | .fileOp _ path _ _ | .fsyncdir path _ _ _
  | .release _ path _ _ => path.toList
  | .lookup path _ _ | .nodeOp _ path _ | .statfs path _ | .openNode _ path _ _
  | .mknod path _ _ _ _ _ | .mkdir path _ _ _ _ | .symlink path _ _ _ | .create path _ _ _ _ _
  | .unlink path _ _ | .rmdir path _ _ | .readdir path _ _ _ | .readdirplus path _ _ _ => [path]
  | .rename path _ newpath _ _ | .link path newpath _ _ => [path, newpath]

/-- A tree filesystem: its states show trees with ordinary names, and its calls answer as POSIX
says. -/
structure TreeFilesystem (P : PathFilesystem) where
  Obj : Type
  tree : P.State → ObjectTree Obj Name
  /-- The states that it can be in. -/
  Valid : P.State → Prop
  init : Valid P.init
  wf : ∀ {s}, Valid s → (tree s).WF
  ordinary : ∀ {s a name x}, Valid s → (tree s).child a name = some x → name.Ordinary
  call : ∀ {s c ch r s'}, Valid s → (∀ name ∈ c.names, name.Ordinary) →
    P.call c ch s = some (r, s') → Valid s' ∧ (tree s).Answers c r (tree s')

end TypedFuse
