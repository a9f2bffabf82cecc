import TypedFuse.Core.Frame
import TypedFuse.Memory.MemoryFs

/-!
# Which instructions the callbacks perform

Callbacks are put together from a few instructions.  A property of instructions that the harmless
ones have (`Tame`) holds of all that the callbacks perform which are not about names, and one that
the instructions about names have as well (`Naming`) holds of the others.
-/

namespace TypedFuse

open Conc Conc.Service TypedFuse.Runtime

namespace MemoryFs

variable {P : RtInstr sig → Prop} {α β : Type}

/-- The sections of the runtime, leases, clocks, reading cells and extended attributes are
allowed. -/
structure Tame (P : RtInstr sig → Prop) : Prop where
  runtime : ∀ {i}, (∀ j, i ≠ .fs j) → P i
  get : ∀ id, P (.fs (.get id))
  dropRef : ∀ ref, P (.fs (.dropRef ref))
  now : P (.fs (.own Instr.now))
  read : ∀ c, P (.fs (.own (Instr.read c)))
  setxattr : ∀ c name value flags t, P (.fs (.own (Instr.write c (.setxattr name value flags t))))
  removexattr : ∀ c name t, P (.fs (.own (Instr.write c (.removexattr name t))))

/-- So is what makes, removes and moves names; files are made empty. -/
structure Naming (P : RtInstr sig → Prop) : Prop extends Tame P where
  alloc : ∀ d, (∀ bytes, d.content = .file bytes → bytes = []) →
    P (.fs (.own (Instr.alloc d)))
  insert : ∀ c parent, P (.fs (.insert c parent))
  reparent : ∀ id newParent, P (.fs (.reparent id newParent))
  addLink : ∀ id, P (.fs (.addLink id))
  removeLink : ∀ id, P (.fs (.removeLink id))
  write : ∀ c u, (∀ data offset t, u ≠ .write data offset t) →
    (∀ req t, u ≠ .setattr req t) →
    P (.fs (.own (Instr.write c u)))

/-- A callback performs only such instructions. -/
def Within (P : RtInstr sig → Prop) (p : Callback α) : Prop :=
  p.Performs fun i => P (.fs i)

namespace Within

lemma ret (a : α) : Within P (.ret a) :=
  Prog.performs_ret a

lemma bind {p : Callback α} {f : α → Callback β} (hp : Within P p)
    (hf : ∀ a, Within P (f a)) :
    Within P (p >>= f) :=
  Prog.Performs.bind hp hf

lemma perform {i : FsInstr sig} (hi : P (.fs i)) : Within P (Prog.perform i) :=
  Prog.performs_perform hi

lemma ite {c : Prop} {_ : Decidable c} {p q : Callback α} (hp : Within P p) (hq : Within P q) :
    Within P (if c then p else q) :=
  Prog.Performs.ite hp hq

/-- A callback that the runtime calls. -/
lemma call {p : Callback α} (hp : Within P p) : (Runtime.call p).Performs P :=
  Prog.Performs.embed (e := RtInstr.fs) (fun _ hi => hi) hp

lemma onOk {outcome : Fallible α} {next : α → Callback (Fallible β)}
    (h : ∀ a, Within P (next a)) :
    Within P (MemoryFs.onOk outcome next) := by
  cases outcome with
  | error e => exact ret _
  | ok a => exact h a

/-! ### Callbacks that are not about names -/

section Tame

variable (hP : Tame P)
include hP

lemma now : Within P MemoryFs.now :=
  perform hP.now

lemma visit {id : NodeId} {guarded : ℕ → Callback α} (hg : ∀ c, Within P (guarded c)) :
    Within P (MemoryFs.visit id guarded) := by
  refine bind (perform (hP.get id)) ?_
  intro r
  cases r with
  | none => exact ret _
  | some ref =>
    refine bind (hg ref.record.payload) fun a => ?_
    exact bind (perform (hP.dropRef ref)) fun _ => ret _

lemma readNode (id : NodeId) : Within P (MemoryFs.readNode id) :=
  visit hP fun c => perform (hP.read c)

lemma entry (parent : NodeId) (name : Name) : Within P (MemoryFs.entry parent name) := by
  refine bind (readNode hP parent) ?_
  intro r
  cases r with
  | none => exact ret _
  | some d =>
    dsimp only
    split
    · split
      · exact ret _
      · exact ret _
    · exact ret _

lemma checkNewEntry (parent : NodeId) (name : Name) :
    Within P (MemoryFs.checkNewEntry parent name) := by
  refine bind (readNode hP parent) ?_
  intro r
  cases r with
  | none => exact ret _
  | some d =>
    dsimp only
    split
    · exact ret _
    · exact ret _

lemma kind (id : NodeId) : Within P (MemoryFs.kind id) := by
  refine bind (readNode hP id) ?_
  intro r
  cases r with
  | none => exact ret _
  | some d => exact ret _

lemma lookup (parent : NodeId) (name : Name) : Within P (MemoryFs.lookup parent name) := by
  refine bind (entry hP parent name) ?_
  intro r
  cases r with
  | ok e => exact ret _
  | error e => exact ret _

lemma getattr (c : ℕ) : Within P (MemoryFs.getattr c) :=
  bind (perform (hP.read c)) fun _ => ret _

lemma nodeOp (op : NodeOp) (c : ℕ) : Within P (MemoryFs.nodeOp op c) := by
  cases op with
  | readlink =>
    refine bind (perform (hP.read c)) fun d => ?_
    split
    · exact ret _
    · exact ret _
  | access mask => exact ret _
  | setxattr name value flags =>
    exact bind (now hP) fun t => bind (perform (hP.setxattr c name value flags t)) fun _ => ret _
  | getxattr name size => exact bind (perform (hP.read c)) fun d => ret _
  | listxattr size => exact bind (perform (hP.read c)) fun d => ret _
  | removexattr name =>
    exact bind (now hP) fun t => bind (perform (hP.removexattr c name t)) fun _ => ret _

lemma read (c offset size : ℕ) : Within P (MemoryFs.read c offset size) := by
  refine bind (perform (hP.read c)) fun d => ?_
  split
  · exact ite (ret _) (ite (ret _) (ret _))
  · exact ret _

lemma openNode (k : HandleKind) (c : ℕ) : Within P (MemoryFs.openNode k c) := by
  refine bind (perform (hP.read c)) fun d => ?_
  cases k with
  | file => exact ret _
  | dir => exact ret _

lemma setattr_of {c : ℕ} {change : SetAttr}
    (hset : ∀ t, P (.fs (.own (Instr.write c (.setattr change t))))) :
    Within P (MemoryFs.setattr c change) :=
  bind (now hP) fun t => bind (perform (hset t)) fun _ => ret _

lemma write_of {c offset : ℕ} {data : List UInt8}
    (hwrite : ∀ t, P (.fs (.own (Instr.write c (.write data offset t))))) :
    Within P (MemoryFs.write c data offset) :=
  bind (now hP) fun t => bind (perform (hwrite t)) fun _ => ret _

end Tame

/-! ### Callbacks that are about names -/

/-- `mknod` makes empty files. -/
lemma empty_contentOf {mode : ℕ} {k : FileKind} {content : Content}
    (h : contentOf mode = some (k, content)) (bytes : List UInt8) (hc : content = .file bytes) :
    bytes = [] := by
  subst hc
  unfold contentOf at h
  split at h <;> cases h
  rfl

section Naming

variable (hP : Naming P)
include hP

lemma writeNode (id : NodeId) {u : Update} (hw : ∀ data offset t, u ≠ .write data offset t)
    (hs : ∀ req t, u ≠ .setattr req t) : Within P (MemoryFs.writeNode id u) :=
  visit hP.toTame fun c => perform (hP.write c u hw hs)

lemma createChild (uid gid : ℕ) (parent : NodeId) (name : Name) (k : FileKind) {content : Content}
    (hnew : ∀ bytes, content = .file bytes → bytes = []) (perm rdev : ℕ) :
    Within P (MemoryFs.createChild uid gid parent name k content perm rdev) := by
  refine bind (checkNewEntry hP.toTame parent name) fun checked => onOk fun _ => ?_
  refine bind (now hP.toTame) fun created => bind (perform (hP.alloc _ hnew)) fun c => ?_
  refine bind (perform (hP.insert c parent)) fun id => bind (now hP.toTame) fun linked => ?_
  exact bind (bind (writeNode hP parent (by simp) (by simp)) fun _ => ret _) fun _ => ret _

lemma makeOp (uid gid : ℕ) (op : MakeOp) : Within P (MemoryFs.makeOp uid gid op) := by
  cases op with
  | mknod parent name mode rdev umask =>
    change Within P (MemoryFs.mknod uid gid parent name mode rdev)
    unfold MemoryFs.mknod
    split
    · next k content hcontent =>
      exact createChild hP uid gid parent name k (empty_contentOf hcontent) ..
    · exact ret _
  | mkdir parent name mode umask =>
    refine createChild hP uid gid parent name _ ?_ ..
    simp
  | symlink parent name target =>
    refine createChild hP uid gid parent name _ ?_ ..
    simp
  | link id newparent newname =>
    refine bind (kind hP.toTame id) fun k => onOk fun k => ite (ret _) ?_
    refine bind (checkNewEntry hP.toTame newparent newname) fun checked => onOk fun _ => ?_
    refine bind (now hP.toTame) fun t => bind (kind hP.toTame id) fun k => onOk fun k => ?_
    refine bind (bind (writeNode hP newparent (by simp) (by simp)) fun _ => ret _) fun _ => ?_
    refine bind (perform (hP.addLink id)) fun _ => ?_
    exact bind (writeNode hP id (by simp) (by simp)) fun _ => ret _

lemma unlink (parent : NodeId) (name : Name) : Within P (MemoryFs.unlink parent name) := by
  refine bind (entry hP.toTame parent name) fun found => onOk fun e => ?_
  refine bind (kind hP.toTame e.id) fun k => onOk fun k => ite (ret _) ?_
  refine bind (now hP.toTame) fun t => bind (writeNode hP parent (by simp) (by simp)) fun _ => ?_
  refine bind (writeNode hP e.id (by simp) (by simp)) fun _ => ?_
  exact bind (perform (hP.removeLink e.id)) fun _ => ret _

lemma rmdir (parent : NodeId) (name : Name) : Within P (MemoryFs.rmdir parent name) := by
  refine bind (entry hP.toTame parent name) fun found => onOk fun e => ?_
  have hchild : ∀ c, Within P (MemoryFs.rmdirChild parent name e.id c) := by
    intro c
    refine bind (perform (hP.read c)) fun d => ?_
    split
    · refine ite ?_ (ret _)
      refine bind (now hP.toTame) fun t => ?_
      refine bind (writeNode hP parent (by simp) (by simp)) fun _ => ?_
      refine bind (writeNode hP e.id (by simp) (by simp)) fun _ => ?_
      exact bind (perform (hP.removeLink e.id)) fun _ => ret _
    · exact ret _
  refine bind (visit hP.toTame hchild) ?_
  intro r
  cases r with
  | none => exact ret _
  | some result => exact ret _

lemma dropReplaced (newparent : NodeId) (t : SystemTime) (replaced : Option DirEntry) :
    Within P (MemoryFs.dropReplaced newparent t replaced) := by
  cases replaced with
  | none => exact ret _
  | some e =>
    refine ite ?_ ?_
    · refine bind (writeNode hP newparent (by simp) (by simp)) fun _ => ?_
      exact bind (writeNode hP e.id (by simp) (by simp)) fun _ => perform (hP.removeLink e.id)
    · exact bind (writeNode hP e.id (by simp) (by simp)) fun _ => perform (hP.removeLink e.id)

lemma renameEntry (parent : NodeId) (name : Name) (newparent : NodeId) (newname : Name)
    (target : DirEntry) :
    Within P (MemoryFs.renameEntry parent name newparent newname target) := by
  refine bind (now hP.toTame) fun t => bind (writeNode hP parent (by simp) (by simp)) fun _ => ?_
  refine bind (writeNode hP newparent (by simp) (by simp)) fun inserted => onOk fun replaced => ?_
  refine bind (writeNode hP newparent (by simp) (by simp)) fun _ => ite ?_ ?_
  · refine bind (bind (perform (hP.reparent target.id newparent)) fun _ => ?_) fun _ => ?_
    · refine bind (writeNode hP parent (by simp) (by simp)) fun _ => ?_
      exact bind (writeNode hP newparent (by simp) (by simp)) fun _ => ret _
    · exact bind (dropReplaced hP newparent t replaced) fun _ => ret _
  · exact bind (dropReplaced hP newparent t replaced) fun _ => ret _

lemma rename (parent : NodeId) (name : Name) (newparent : NodeId) (newname : Name) :
    Within P (MemoryFs.rename parent name newparent newname) := by
  refine bind (entry hP.toTame parent name) fun found => onOk fun e => ?_
  refine bind (kind hP.toTame e.id) fun k => onOk fun k => ?_
  refine bind (entry hP.toTame newparent newname) ?_
  intro r
  cases r with
  | ok existing =>
    refine ite (ret _) (bind ?_ fun checked => onOk fun _ => renameEntry hP ..)
    refine bind (readNode hP.toTame existing.id) ?_
    intro r
    cases r with
    | none => exact ret _
    | some d =>
      dsimp only
      split
      · exact ret _
      · exact ret _
  | error e => exact ite (renameEntry hP ..) (ret _)

lemma treeOp (op : TreeOp) : Within P (MemoryFs.treeOp op) := by
  cases op with
  | unlink parent name => exact bind (unlink hP parent name) fun _ => ret _
  | rmdir parent name => exact bind (rmdir hP parent name) fun _ => ret _
  | rename parent name newparent newname flags => exact bind (rename hP ..) fun _ => ret _
  | copyFileRange _ _ _ _ _ _ => exact ret _

lemma create (uid gid : ℕ) (parent : NodeId) (name : Name) (mode : ℕ) :
    Within P (MemoryFs.create uid gid parent name mode) := by
  refine bind (createChild hP uid gid parent name _ ?_ ..) fun _ => onOk fun _ => ret _
  intro bytes h
  exact (Content.file.inj h).symm

end Naming

end Within

/-! ## Listings -/

/-- Likewise in a directory callback, where entries may be added. -/
def WithinDir (P : RtInstr sig → Prop) : DirInstr sig FileKind → Prop
  | .fs i => P (.fs i)
  | .add _ _ _ _ => True

lemma performs_emit (i : ℕ) (es : List (Name × DirEntry)) :
    (emit i es).Performs (WithinDir P) := by
  induction es generalizing i with
  | nil => exact Prog.performs_ret _
  | cons e es ih =>
    refine Prog.Performs.bind (Prog.performs_perform trivial) fun taken => ?_
    exact Prog.Performs.ite (ih (i + 1)) (Prog.performs_ret _)

/-- An entry that is offered or skipped. -/
lemma performs_orSkip {c : Prop} {_ : Decidable c} {p : DirCallback Bool}
    {f : Bool → DirCallback α} (hp : p.Performs (WithinDir P))
    (hf : ∀ b, (f b).Performs (WithinDir P)) :
    (if c then p >>= f else .ret true >>= f).Performs (WithinDir P) :=
  Prog.Performs.ite (hp.bind hf) (Prog.Performs.bind (Prog.performs_ret true) hf)

lemma performs_readdir (hP : Tame P) (c : ℕ) (this parent : NodeId) (offset : ℕ) :
    (readdir c this parent offset).Performs (WithinDir P) := by
  have hadd : ∀ name id next, (add name id .directory next).Performs (WithinDir P) :=
    fun _ _ _ => Prog.performs_perform trivial
  refine Prog.Performs.bind (Prog.Performs.embed (e := DirInstr.fs) (fun _ hi => hi)
    (Within.perform (i := .own (Instr.read c)) (hP.read c))) fun d => ?_
  split
  · refine performs_orSkip (hadd _ _ _) fun dot => Prog.Performs.ite ?_ (Prog.performs_ret _)
    refine performs_orSkip (hadd _ _ _) fun dotDot => Prog.Performs.ite ?_ (Prog.performs_ret _)
    exact (performs_emit _ _).bind fun _ => Prog.performs_ret _
  · exact Prog.performs_ret _

/-! ## Requests -/

/-- The requests that change names.  `copy_file_range` is not implemented. -/
def changesNames : Request → Bool
  | .makeOp _ _ => true
  | .treeOp (.copyFileRange _ _ _ _ _ _) _ => false
  | .treeOp _ _ => true
  | .create _ _ _ _ _ _ => true
  | _ => false

/-- The callbacks that are neither about names nor about what a node holds. -/
lemma mild {uid gid : ℕ} {made : SystemTime} (hP : Tame P) :
    Mild (fs uid gid made) fun p => p.Performs P where
  ret := fun a => Prog.performs_ret a
  bind := fun hp hf => hp.bind hf
  sect := fun hi => Prog.performs_perform (hP.runtime hi)
  populate := Prog.performs_ret _
  getattr := fun node _ _ => Within.call (Within.getattr hP node)
  nodeOp := fun op node _ => Within.call (Within.nodeOp hP op node)
  fsyncdir := fun _ _ _ _ => Prog.performs_ret _
  statfs := fun _ => Prog.performs_ret _
  openNode := fun k node _ _ => Within.call (Within.openNode hP k node)
  release := fun _ _ _ _ => Prog.performs_ret _

/-- What requests perform: `setattr` and `write` also their own change of a cell, requests that
change names also the instructions about names, and all others only harmless ones. -/
theorem performs_serve {uid gid : ℕ} {made : SystemTime} (hP : Tame P) {req : Request}
    (hset : ∀ ino fh change caller, req = .setattr ino fh change caller →
      ∀ c t, P (.fs (.own (Instr.write c (.setattr change t)))))
    (hwrite : ∀ data offset ino fh caller, req = .fileOp (.write data offset) ino fh caller →
      ∀ c t, P (.fs (.own (Instr.write c (.write data offset t)))))
    (hnames : changesNames req = true → Naming P) :
    (serve (fs uid gid made) req).Performs P := by
  have hmild : Mild (fs uid gid made) fun p => p.Performs P := mild hP
  refine hmild.serve req ?_ ?_ ?_ ?_ ?_ ?_ ?_ ?_
  · rintro ino fh change caller rfl node h
    exact Within.call (Within.setattr_of hP fun t => hset ino fh change caller rfl node t)
  · rintro op ino fh caller rfl node h
    cases op with
    | read offset size => exact Within.call (Within.read hP node offset size)
    | write data offset =>
      exact Within.call (Within.write_of hP fun t => hwrite data offset ino fh caller rfl node t)
    | _ => exact Prog.performs_ret _
  · rintro ino fh offset sink caller rfl
    refine hmild.withNode fun ref => hmild.bind (hmild.sect (by simp)) ?_
    intro r
    cases r with
    | none => exact Prog.performs_ret _
    | some parent =>
      refine hmild.withHandle fun handle => Prog.Performs.bind ?_ fun _ => Prog.performs_ret _
      refine Prog.Performs.handle ?_ (performs_readdir hP _ _ _ _) _
      intro i offered hi
      cases i with
      | fs i => exact Prog.Performs.bind (Prog.performs_perform hi) fun _ => Prog.performs_ret _
      | add name id kind next => exact Prog.performs_ret _
  · rintro ino fh offset sink caller rfl
    refine hmild.withNode fun ref => hmild.bind (hmild.sect (by simp)) ?_
    intro r
    cases r with
    | none => exact Prog.performs_ret _
    | some parent => exact hmild.withHandle fun handle => Prog.performs_ret _
  · rintro parent name caller rfl
    exact Within.call (Within.lookup hP parent name)
  · rintro op caller rfl
    exact Within.call (Within.makeOp (hnames rfl) uid gid op)
  · rintro op caller rfl
    cases op with
    | unlink parent name => exact Within.call (Within.treeOp (hnames rfl) (.unlink parent name))
    | rmdir parent name => exact Within.call (Within.treeOp (hnames rfl) (.rmdir parent name))
    | rename parent name newparent newname flags =>
      exact Within.call (Within.treeOp (hnames rfl) (.rename parent name newparent newname flags))
    | copyFileRange => exact Prog.performs_ret _
  · rintro parent name mode umask flags caller rfl
    exact Within.call (Within.create (hnames rfl) uid gid parent name mode)

end MemoryFs

end TypedFuse
