import TypedFuse.Path.Guarding

/-!
# The callbacks of the path adapter meet their contracts

Every callback takes a guard of the operations lock, works on the namespace under it and gives it
back.  Below that, the functions of `path_fs.rs` keep the guard they are called with, on either
side of the lock.
-/

namespace TypedFuse

open Conc NodeTable TypedFuse.Runtime

/-- The token logic of the path adapter. -/
def pathLogic (P : PathFilesystem) (exact : Prop) :
    Logic (service (pathNodeFs P)) PathToken where
  inv := fun s T => PathInv (P := P) exact s (pathView T)
  own := fun _ _ => True
  contract := fun _ i C => PathContract (P := P) exact i C
  init := fun _ _ => 0
  post := fun _ _ _ g => g = 0
  fact := fun _ _ _ _ => True

variable {P : PathFilesystem} {exact : Prop} {n : ℕ} {α β D : Type}

/-- A thread can run a callback from the guards `g` and ends with a value and guards in `Q`. -/
def Runs (P : PathFilesystem) (exact : Prop) (n : ℕ) (g : Multiset PathToken)
    (p : PathNodeFs.Callback P α) (Q : α → Multiset PathToken → Prop) : Prop :=
  (pathLogic P exact).Meets n g (Runtime.call (σ := PathNodeFs.sig P) p) Q

/-- A callback that keeps the guard of one side of the operations lock. -/
def Keeps (P : PathFilesystem) (exact : Prop) (n : ℕ) (m : Side) (p : PathNodeFs.Callback P α) :
    Prop :=
  ∀ ns, Runs P exact n {m.guard ns} p fun _ g => ∃ ns', g = {m.guard ns'}

namespace Runs

variable {g : Multiset PathToken}

lemma ret {a : α} {Q : α → Multiset PathToken → Prop} (h : Q a g) :
    Runs P exact n g (.ret a) Q :=
  h

lemma mono {p : PathNodeFs.Callback P α} {Q Q' : α → Multiset PathToken → Prop}
    (h : Runs P exact n g p Q) (hQ : ∀ a g', Q a g' → Q' a g') : Runs P exact n g p Q' :=
  Logic.Meets.mono h hQ

lemma bind {p : PathNodeFs.Callback P α} {f : α → PathNodeFs.Callback P β}
    {Q : α → Multiset PathToken → Prop} {Q' : β → Multiset PathToken → Prop}
    (h : Runs P exact n g p Q) (hf : ∀ a g', Q a g' → Runs P exact n g' (f a) Q') :
    Runs P exact n g (p >>= f) Q' := by
  unfold Runs
  rw [call_bind]
  exact Logic.Meets.bind h hf

/-- Both branches of a conditional. -/
lemma ite {c : Prop} {_ : Decidable c} {p q : PathNodeFs.Callback P α}
    {Q : α → Multiset PathToken → Prop} (hp : c → Runs P exact n g p Q)
    (hq : ¬c → Runs P exact n g q Q) : Runs P exact n g (if c then p else q) Q := by
  split
  · next hc => exact hp hc
  · next hc => exact hq hc

/-- Perform an instruction under a contract and go on. -/
lemma step {i : FsInstr (PathNodeFs.sig P)} {C : Contract PathToken i.Resp}
    (hC : PathContract (P := P) exact (.fs i) C) {f : Multiset PathToken} (hg : g = C.take + f)
    {k : i.Resp → PathNodeFs.Callback P α} {Q : α → Multiset PathToken → Prop}
    (hk : ∀ r g', C.give r g' → Runs P exact n (g' + f) (k r) Q) :
    Runs P exact n g (Prog.perform i >>= k) Q :=
  ⟨C, f, hC, hg, hk⟩

/-- Perform an instruction under a contract. -/
lemma perform {i : FsInstr (PathNodeFs.sig P)} {C : Contract PathToken i.Resp}
    (hC : PathContract (P := P) exact (.fs i) C) {f : Multiset PathToken} (hg : g = C.take + f)
    {Q : i.Resp → Multiset PathToken → Prop} (hQ : ∀ r g', C.give r g' → Q r (g' + f)) :
    Runs P exact n g (Prog.perform i) Q :=
  ⟨C, f, hC, hg, hQ⟩

/-- Perform an instruction that needs no guards. -/
lemma free {i : FsInstr (PathNodeFs.sig P)} (hC : PathContract (P := P) exact (.fs i) .free) :
    Runs P exact n g (Prog.perform i) fun _ g' => g' = g := by
  refine perform hC (zero_add g).symm ?_
  rintro r g' rfl
  exact zero_add g

/-- A call of the inner filesystem. -/
lemma inner (c : PathCall P.Payload) : Runs P exact n g (PathNodeFs.inner c) fun _ g' => g' = g :=
  free (.inner c)

/-- `node_path`. -/
lemma nodePath (node : PathNode) :
    Runs P exact n g (PathNodeFs.nodePath node) fun _ g' => g' = g := by
  refine bind (free (.nodeId node.key)) ?_
  rintro r g' rfl
  cases r with
  | none => exact ret rfl
  | some id => exact free (.pathFor id)

/-- Run a callback under a read guard. -/
lemma reading {body : PathNodeFs.Callback P α}
    (h : Runs P exact n {.shared} body fun _ g => g = {.shared}) :
    Runs P exact n 0 (PathNodeFs.reading body) fun _ g => g = 0 := by
  refine step .readLock (add_zero 0).symm ?_
  rintro _ g' rfl
  rw [add_zero]
  refine bind h ?_
  rintro a g' rfl
  refine step .readUnlock (add_zero _).symm ?_
  rintro _ g' rfl
  exact ret (add_zero 0)

/-- Run a callback under the write guard. -/
lemma writing {body : PathNodeFs.Callback P α} (h : Keeps P exact n .write body) :
    Runs P exact n 0 (PathNodeFs.writing body) fun _ g => g = 0 := by
  refine step .writeLock (add_zero 0).symm ?_
  rintro _ g' ⟨ns, rfl⟩
  rw [add_zero]
  refine bind (h ns) ?_
  rintro a g' ⟨ns', rfl⟩
  refine step (.writeUnlock ns') (add_zero _).symm ?_
  rintro _ g' rfl
  exact ret (add_zero 0)

/-- Run a callback that computes the path of its node first. -/
lemma pathThen {node : PathNode} {f : Option Path → PathNodeFs.Callback P α}
    (hf : ∀ p, Runs P exact n g (f p) fun _ g' => g' = g) :
    Runs P exact n g (PathNodeFs.nodePath node >>= f) fun _ g' => g' = g := by
  refine bind (nodePath node) ?_
  rintro p g' rfl
  exact hf p

end Runs

/-! ## Functions under a guard -/

namespace Keeps

variable {m : Side}

lemma ret (a : α) : Keeps P exact n m (.ret a) := by
  intro ns
  exact ⟨ns, rfl⟩

lemma bind {p : PathNodeFs.Callback P α} {f : α → PathNodeFs.Callback P β}
    (hp : Keeps P exact n m p) (hf : ∀ a, Keeps P exact n m (f a)) :
    Keeps P exact n m (p >>= f) := by
  intro ns
  refine (hp ns).bind ?_
  rintro a g ⟨ns', rfl⟩
  exact hf a ns'

lemma inner (c : PathCall P.Payload) : Keeps P exact n m (PathNodeFs.inner c) := by
  intro ns
  refine (Runs.inner c).mono ?_
  rintro a g rfl
  exact ⟨ns, rfl⟩

lemma onOk {outcome : Fallible α} {next : α → PathNodeFs.Callback P (Fallible β)}
    (h : ∀ a, Keeps P exact n m (next a)) : Keeps P exact n m (PathNodeFs.onOk outcome next) := by
  cases outcome with
  | error e => exact ret _
  | ok a => exact h a

/-- `self.path(id)?` and the rest of the function. -/
lemma withPathOf {id : NodeId} {next : Path → PathNodeFs.Callback P (Fallible α)}
    (h : ∀ p, Keeps P exact n m (next p)) :
    Keeps P exact n m (PathNodeFs.withPathOf id next) := by
  intro ns
  refine Runs.bind (Runs.free (.pathFor id)) ?_
  rintro r g rfl
  cases r with
  | none => exact ret _ ns
  | some p => exact h p ns

/-- `self.node_path(node).ok_or(Errno::ENOENT)?` and the rest of the function. -/
lemma withPath {node : PathNode} {next : Path → PathNodeFs.Callback P (Fallible α)}
    (h : ∀ p, Keeps P exact n m (next p)) :
    Keeps P exact n m (PathNodeFs.withPath node next) := by
  intro ns
  refine Runs.bind (Runs.nodePath node) ?_
  rintro r g rfl
  cases r with
  | none => exact ret _ ns
  | some p => exact h p ns

/-- `Namespace::insert`. -/
lemma insert (parent : NodeId) (name : Name) :
    Keeps P exact n m (PathNodeFs.insert parent name) := by
  intro ns₀
  refine Runs.step (.nsLock m ns₀) (add_zero _).symm ?_
  rintro _ g ⟨ns, _, rfl⟩
  rw [add_zero]
  refine Runs.step (.known ns ⟨parent, name⟩) (add_comm _ _) ?_
  rintro r g ⟨rfl, rfl⟩
  cases hd : ns.find ⟨parent, name⟩ with
  | some id =>
    refine Runs.step (.nsUnlock ns) rfl ?_
    rintro _ g rfl
    exact Runs.ret ⟨ns, zero_add _⟩
  | none =>
    refine Runs.step (.takeKey m ns) (f := 0) (by rw [add_zero, add_comm]) ?_
    rintro key g ⟨ns₁, hkey, rfl⟩
    rw [add_zero]
    have hd₁ : ns₁.find ⟨parent, name⟩ = none := by
      unfold Namespace.takeKey at hkey
      split at hkey
      · obtain ⟨_, rfl⟩ := Prod.mk.inj (Option.some.inj hkey)
        exact hd
      · cases hkey
    refine Runs.step (.insert ns₁ key parent) (add_comm _ _) ?_
    rintro id g rfl
    refine Runs.step (.record m ns₁ key id ⟨parent, name⟩ hd₁) (f := 0)
      (by rw [add_zero, add_comm]) ?_
    rintro _ g rfl
    rw [add_zero]
    refine Runs.step (.nsUnlock _) (add_comm _ _) ?_
    rintro _ g rfl
    exact Runs.ret ⟨_, zero_add _⟩

lemma addNode (parent : NodeId) (name : Name) :
    Keeps P exact n m (PathNodeFs.addNode parent name) :=
  bind (insert parent name) fun _ => ret _

lemma addEnumeratedNode (parent : NodeId) (name : Name) :
    Keeps P exact n m (PathNodeFs.addEnumeratedNode parent name) :=
  bind (insert parent name) fun _ => ret _

/-- Giving up the link of a removed name. -/
lemma runs_removeLinkOf (ns : Namespace) (removed : Option NodeId) (f : Multiset PathToken) :
    Runs P exact n ({.sect ns (removed.elim .level .unnamed)} + f) (PathNodeFs.removeLinkOf removed)
      fun _ g => g = {.sect ns .level} + f := by
  cases removed with
  | none => exact Runs.ret rfl
  | some id =>
    refine Runs.perform (.removeLink ns id) rfl ?_
    rintro _ g rfl
    rfl

/-- Removing a name with its link. -/
lemma removeDentry (d : Dentry) : Keeps P exact n m (PathNodeFs.removeDentry d) := by
  intro ns₀
  refine Runs.step (.nsLock m ns₀) (add_zero _).symm ?_
  rintro _ g ⟨ns, _, rfl⟩
  rw [add_zero]
  refine Runs.step (.remove m ns d) (add_zero _).symm ?_
  rintro r g ⟨_, rfl⟩
  rw [add_zero, add_comm]
  refine (runs_removeLinkOf (ns.remove d).2 r _).bind ?_
  rintro _ g rfl
  refine Runs.perform (.nsUnlock _) rfl ?_
  rintro _ g rfl
  exact ⟨_, zero_add _⟩

lemma rollback (ds : List Dentry) : Keeps P exact n m (PathNodeFs.rollback ds) := by
  induction ds with
  | nil => exact ret ()
  | cons d ds ih => exact bind (removeDentry d) fun _ => ih

lemma undo (result : Fallible Unit) (inserted : List Dentry) :
    Keeps P exact n m (PathNodeFs.undo result inserted) := by
  unfold PathNodeFs.undo
  split
  · exact rollback _
  · exact ret ()

lemma enumerate (this parent : NodeId) (name : Name) :
    Keeps P exact n m (PathNodeFs.enumerate this parent name) := by
  unfold PathNodeFs.enumerate
  split
  · exact ret _
  · split
    · exact ret _
    · exact addEnumeratedNode this name

end Keeps

/-! ## Structural callbacks -/

/-- `mknod`, `mkdir` and `symlink`. -/
lemma runs_makeNode (parent : NodeId) (name : Name)
    (make : Path → PathNodeFs.Callback P (Fallible NodeAttr))
    (hmake : ∀ p, Keeps P exact n .write (make p)) :
    Runs P exact n 0 (PathNodeFs.makeNode parent name make) fun _ g => g = 0 := by
  refine Runs.writing (Keeps.withPathOf fun p => Keeps.bind (hmake p) fun made => Keeps.onOk ?_)
  intro _
  exact Keeps.bind (Keeps.addNode parent name) fun _ => Keeps.ret _

/-- `link`: the node has a path, so it has a name and a link, until its new name has one too. -/
lemma runs_link (id newparent : NodeId) (newname : Name) (caller : Caller) :
    Runs P exact n 0 (PathNodeFs.link id newparent newname caller) fun _ g => g = 0 := by
  refine Runs.writing ?_
  intro ns
  refine Runs.step (.pathForExcl ns id) (add_zero _).symm ?_
  rintro r g ⟨hpath, rfl⟩
  rw [add_zero]
  cases r with
  | none => exact Keeps.ret (m := .write) _ ns
  | some source =>
    have hid : id = NodeId.ROOT ∨ (ns.names id).Nonempty := by
      by_cases hroot : id = NodeId.ROOT
      · exact Or.inl hroot
      · exact Or.inr (Namespace.names_nonempty_of_pathFor hroot hpath)
    refine Runs.bind (Runs.free (.pathFor newparent)) ?_
    rintro r g rfl
    cases r with
    | none => exact Keeps.ret (m := .write) _ ns
    | some parent =>
      refine Runs.bind (Runs.inner _) ?_
      rintro linked g rfl
      cases linked with
      | error e => exact Keeps.ret (m := .write) _ ns
      | ok attr =>
        refine Runs.step (.nsLock .write ns) (add_zero _).symm ?_
        rintro _ g ⟨ns', hns', rfl⟩
        obtain rfl := hns' rfl
        rw [add_zero]
        refine Runs.step (.addAlias ns' id ⟨newparent, newname⟩ hid) (add_zero _).symm ?_
        rintro _ g ⟨lent, hlent, rfl⟩
        rw [add_zero]
        refine Runs.step (.nsUnlock _) (add_comm _ _) ?_
        rintro _ g rfl
        rw [zero_add]
        refine Runs.step (.addLink _ id lent hlent) (add_zero _).symm ?_
        rintro _ g rfl
        exact Runs.ret ⟨_, add_zero _⟩

lemma runs_makeOp (op : MakeOp) (caller : Caller) :
    Runs P exact n 0 (PathNodeFs.makeOp op caller) fun _ g => g = 0 := by
  cases op with
  | mknod parent name mode rdev umask => exact runs_makeNode parent name _ fun _ => Keeps.inner _
  | mkdir parent name mode umask => exact runs_makeNode parent name _ fun _ => Keeps.inner _
  | symlink parent name target => exact runs_makeNode parent name _ fun _ => Keeps.inner _
  | link id newparent newname => exact runs_link id newparent newname caller

/-- `unlink` and `rmdir`. -/
lemma runs_removeEntry (parent : NodeId) (name : Name) (directory : Bool) (caller : Caller) :
    Runs P exact n 0 (PathNodeFs.removeEntry parent name directory caller) fun _ g => g = 0 := by
  refine Runs.writing (Keeps.withPathOf fun p => Keeps.bind ?_ fun removed => Keeps.onOk ?_)
  · intro ns
    exact Runs.ite (fun _ => Keeps.inner _ ns) fun _ => Keeps.inner _ ns
  · intro _
    exact Keeps.bind (Keeps.removeDentry _) fun _ => Keeps.ret _

/-- The end of `rename`: the node that loses its old name gets the new one for its link. -/
lemma runs_moveDentry (old new : Dentry) (ns : Namespace) :
    Runs P exact n ({.excl ns none} + {.sect ns .level}) (PathNodeFs.moveDentry old new)
      fun _ g => ∃ ns', g = {.excl ns' none} + {.sect ns' .level} := by
  refine Runs.step (.find ns old) (add_comm _ _) ?_
  rintro r g ⟨hold, rfl⟩
  rw [add_comm]
  cases r with
  | none => exact Runs.ret ⟨ns, rfl⟩
  | some source =>
    refine Runs.step (.find ns new) (add_comm _ _) ?_
    rintro target g ⟨htarget, rfl⟩
    rw [add_comm]
    refine Runs.ite (fun _ => Runs.ret ⟨ns, rfl⟩) fun hne => ?_
    have hdist : old ≠ new := by
      rintro rfl
      exact hne (htarget.trans hold.symm)
    refine Runs.step (.remove .write ns new) (add_zero _).symm ?_
    rintro replaced g ⟨_, rfl⟩
    rw [add_zero, add_comm]
    refine (Keeps.runs_removeLinkOf _ replaced _).bind ?_
    rintro _ g rfl
    -- the old name is still bound to the source, and the new one is free
    have hsource : (ns.remove new).2.find old = some source := by
      rw [Namespace.find_remove, if_neg hdist]
      exact hold.symm
    have hfree : ((ns.remove new).2.remove old).2.find new = none := by
      rw [Namespace.find_remove, if_neg hdist.symm, Namespace.find_remove, if_pos rfl]
    refine Runs.step (.remove .write (ns.remove new).2 old) (f := 0)
      (by rw [add_zero, add_comm]) ?_
    rintro removed g ⟨rfl, rfl⟩
    rw [hsource, add_zero]
    refine Runs.step (.rebind _ source new hfree) (add_zero _).symm ?_
    rintro _ g rfl
    refine Runs.perform (.reparent source new.parent) (zero_add _).symm ?_
    rintro _ g rfl
    exact ⟨_, by rw [zero_add, add_zero]⟩

/-- `rename`. -/
lemma runs_rename (parent : NodeId) (name : Name) (newparent : NodeId) (newname : Name)
    (flags : ℕ) (caller : Caller) :
    Runs P exact n 0 (PathNodeFs.rename parent name newparent newname flags caller)
      fun _ g => g = 0 := by
  unfold PathNodeFs.rename
  split
  · exact Runs.ret rfl
  refine Runs.writing (Keeps.withPathOf fun p => Keeps.withPathOf fun p' =>
    Keeps.bind (Keeps.inner _) fun renamed => Keeps.onOk ?_)
  intro _ ns
  refine Runs.step (.nsLock .write ns) (add_zero _).symm ?_
  rintro _ g ⟨ns', _, rfl⟩
  rw [add_zero]
  refine (runs_moveDentry _ _ ns').bind ?_
  rintro _ g ⟨ns'', rfl⟩
  refine Runs.step (.nsUnlock ns'') (add_comm _ _) ?_
  rintro _ g rfl
  exact Runs.ret ⟨ns'', zero_add _⟩

lemma runs_treeOp (op : TreeOp) (caller : Caller) :
    Runs P exact n 0 (PathNodeFs.treeOp op caller) fun _ g => g = 0 := by
  cases op with
  | unlink parent name => exact runs_removeEntry parent name false caller
  | rmdir parent name => exact runs_removeEntry parent name true caller
  | rename parent name newparent newname flags =>
    exact runs_rename parent name newparent newname flags caller
  | copyFileRange idIn offIn idOut offOut len flags => exact Runs.ret rfl

/-- `create`. -/
lemma runs_create (parent : NodeId) (name : Name) (mode umask : ℕ) (flags : ℤ)
    (caller : Caller) :
    Runs P exact n 0 (PathNodeFs.create parent name mode umask flags caller) fun _ g => g = 0 := by
  refine Runs.writing (Keeps.withPathOf fun p => Keeps.bind (Keeps.inner _) fun created =>
    Keeps.onOk ?_)
  rintro ⟨_, opened⟩
  exact Keeps.bind (Keeps.addNode parent name) fun _ => Keeps.ret _

/-! ## Callbacks under a read guard -/

/-- A callback that keeps the read guard. -/
lemma Keeps.shared {p : PathNodeFs.Callback P α} (h : Keeps P exact n .read p) :
    Runs P exact n {.shared} p fun _ g => g = {.shared} := by
  refine (h Namespace.new).mono ?_
  rintro a g ⟨ns, rfl⟩
  rfl

/-- `lookup`. -/
lemma runs_lookup (parent : NodeId) (name : Name) (caller : Caller) :
    Runs P exact n 0 (PathNodeFs.lookup parent name caller) fun _ g => g = 0 := by
  refine Runs.reading (Keeps.shared (Keeps.withPathOf fun p => Keeps.bind (Keeps.inner _)
    fun found => Keeps.onOk ?_))
  intro attr
  cases attr with
  | none => exact Keeps.ret _
  | some _ => exact Keeps.bind (Keeps.addNode parent name) fun _ => Keeps.ret _

/-- What the instructions of a directory callback do to guards. -/
abbrev pathDirSpec (P : PathFilesystem) (exact : Prop) (n : ℕ)
    (i : DirInstr (PathNodeFs.sig P) D) (g : Multiset PathToken)
    (K : i.Resp → Multiset PathToken → Prop) : Prop :=
  dirSpec (pathLogic P exact) n i g K

/-- A callback inside a directory callback. -/
lemma Runs.inDir {g : Multiset PathToken} {p : PathNodeFs.Callback P α}
    {Q : α → Multiset PathToken → Prop} (h : Runs P exact n g p Q) :
    (FsProg.inDir p : PathNodeFs.DirCallback P D α).wp (pathDirSpec P exact n) Q g :=
  wp_inDir.mpr h

lemma mono_pathDirSpec :
    Prog.MonoSpec (pathDirSpec (D := D) P exact n) := by
  intro i g K K' hK h
  cases i with
  | fs i => exact (pathLogic P exact).mono_spec n (.fs i) g K K' hK h
  | add name id data nextOffset => exact fun taken => hK taken g (h taken)

/-- The sinks keep the read guard. -/
lemma runs_emitAll (this parent : NodeId) (listing : Listing D) (inserted : List Dentry) :
    (PathNodeFs.emitAll (P := P) this parent listing inserted).wp (pathDirSpec P exact n)
      (fun _ g => g = {.shared}) {.shared} := by
  induction listing generalizing inserted with
  | finish result => exact rfl
  | emit name data nextOffset next ih =>
    refine Prog.wp_bind.mpr (Prog.wp_mono mono_pathDirSpec ?_
      (Runs.inDir (Keeps.shared (Keeps.enumerate this parent name))))
    rintro ⟨id, dentry⟩ g rfl
    intro accepted
    cases dentry with
    | none => exact ih accepted inserted
    | some d =>
      refine Prog.wp_ite (fun _ => ih accepted _) fun _ => ?_
      refine Prog.wp_bind.mpr (Prog.wp_mono mono_pathDirSpec ?_
        (Runs.inDir (Keeps.shared (Keeps.removeDentry d))))
      rintro _ g rfl
      exact ih accepted inserted

/-- `readdir` and `readdirplus`. -/
lemma runs_listDir (node : PathNode) (this parent : NodeId)
    {list : Path → PathNodeFs.Callback P (Listing D)}
    (hlist : ∀ p, Keeps P exact n .read (list p)) :
    (PathNodeFs.listDir node this parent list).wp (pathDirSpec P exact n) (fun _ g => g = 0) 0 := by
  refine Prog.wp_bind.mpr (Prog.wp_mono mono_pathDirSpec ?_
    (Runs.inDir (Q := fun _ g => g = {.shared}) ?_))
  swap
  · refine Runs.perform .readLock (add_zero 0).symm ?_
    rintro _ g rfl
    exact add_zero _
  rintro _ g rfl
  have hunlock : Runs P exact n {.shared} (PathNodeFs.own .readUnlock) fun _ g => g = 0 := by
    refine Runs.perform .readUnlock (add_zero _).symm ?_
    rintro _ g rfl
    exact add_zero 0
  refine Prog.wp_bind.mpr (Prog.wp_mono mono_pathDirSpec ?_ (Runs.inDir (Runs.nodePath node)))
  rintro r g rfl
  cases r with
  | none =>
    refine Prog.wp_bind.mpr (Prog.wp_mono mono_pathDirSpec ?_ (Runs.inDir hunlock))
    rintro _ g rfl
    exact rfl
  | some path =>
    refine Prog.wp_bind.mpr (Prog.wp_mono mono_pathDirSpec ?_
      (Runs.inDir (Keeps.shared (hlist path))))
    rintro listing g rfl
    refine Prog.wp_bind.mpr (Prog.wp_mono mono_pathDirSpec ?_
      (runs_emitAll this parent listing []))
    rintro ⟨result, inserted⟩ g rfl
    refine Prog.wp_bind.mpr (Prog.wp_mono mono_pathDirSpec ?_
      (Runs.inDir (Keeps.shared (Keeps.undo result inserted))))
    rintro _ g rfl
    refine Prog.wp_bind.mpr (Prog.wp_mono mono_pathDirSpec ?_ (Runs.inDir hunlock))
    rintro _ g rfl
    exact rfl

/-- The adapter is hosted by the runtime. -/
theorem hosted (n : ℕ) : Hosted (pathLogic P exact) n where
  free := fun i hi => .runtime i hi
  populate := Idle.ret ()
  getattr := fun _ _ _ => Runs.reading (Runs.pathThen fun _ => Runs.inner _)
  setattr := fun _ _ _ _ => Runs.reading (Runs.pathThen fun _ => Runs.inner _)
  nodeOp := fun _ _ _ => Runs.reading (Keeps.shared (Keeps.withPath fun _ => Keeps.inner _))
  fileOp := fun _ _ _ _ => Runs.reading (Runs.pathThen fun _ => Runs.inner _)
  fsyncdir := fun _ _ _ _ => Runs.reading (Runs.pathThen fun _ => Runs.inner _)
  statfs := fun _ => Runs.reading (Runs.inner _)
  openNode := fun _ _ _ _ => Runs.reading (Keeps.shared (Keeps.withPath fun _ => Keeps.inner _))
  release := fun _ _ _ _ => Runs.reading (Runs.pathThen fun _ => Runs.inner _)
  readdir := fun node id parent _ _ _ => runs_listDir node id parent fun _ => Keeps.inner _
  readdirplus := fun node id parent _ _ _ => runs_listDir node id parent fun _ => Keeps.inner _
  lookup := runs_lookup
  makeOp := runs_makeOp
  treeOp := runs_treeOp
  create := runs_create

/-! ## Soundness -/

open Conc.Service

/-- No name that is bound is given to another node: `link` does not overwrite. -/
def NoOverwrite (c : Config (service (pathNodeFs P))) : Action (service (pathNodeFs P)) → Prop
  | .step n _ => ∀ req id d, c.At n req (PathInstr.rt (P := P) (.addAlias id d)) →
      c.state.fs.ns.find d = none
  | _ => True

/-- The token logic of the adapter is sound along every run; it is exact along runs in which no
name is overwritten. -/
theorem path_sound
    {allow : Config (service (pathNodeFs P)) → Action (service (pathNodeFs P)) → Prop}
    (hallow : exact → ∀ c a, allow c a → NoOverwrite c a) :
    (pathLogic P exact).Sound allow (start (pathNodeFs P)) where
  own_give := fun _ _ _ => trivial
  own_init := fun _ => trivial
  exec := by
    intro c n id req i k ch r s F C hr ht ha he hC hi
    obtain ⟨T, hinv⟩ := (holds_any hr).inv
    refine PathContract.exec hC hinv.wf he hi ?_
    rintro hex id' d rfl
    exact hallow hex c _ ha req id' d ⟨id, k, ht⟩
  prog := fun _ _ => (hosted _).serve _
  issue := by
    intro c req s F _ _ hs hi
    obtain rfl := Option.some.inj hs
    rw [show (pathLogic P exact).init c.threads.length req + F = F from zero_add F]
    cases req with
    | forget ino m => exact PathInv.calm hi (Calm.refl _) rfl
    | _ => exact hi
  answer := by
    intro c n id req a g F _ _ _ _ _ hi hpost
    obtain rfl : g = 0 := hpost
    rw [zero_add] at hi
    exact ⟨PathInv.calm hi (Calm.refl _) rfl, trivial⟩
  fact_exec := fun _ _ => trivial
  fact_issue := fun _ _ => trivial
  fact_answer := fun _ => trivial

/-- The invariant holds at the start, without guards. -/
lemma pathInv_new : PathInv (P := P) exact (Runtime.new (pathNodeFs P)) PathView.empty where
  guarded := by
    refine ⟨rfl, rfl, fun h => (nomatch h), rfl, ?_, ?_⟩
    · intro x hx
      exact absurd hx (Multiset.notMem_zero x)
    · intro x hx
      exact absurd hx (Multiset.notMem_zero x)
  linked := by
    have hcount : ∀ i, (Runtime.new (pathNodeFs P)).table.count .links i = rootLink i := by
      intro i
      have h := count_set (NodeTable.new : NodeTable (pathNodeFs P).Node) .links NodeId.ROOT i
        (rootSlot (pathNodeFs P))
      refine Eq.trans h ?_
      unfold rootLink
      split <;> rfl
    refine ⟨fun d i hd => (nomatch hd), ?_, ?_, fun i hi => (nomatch hi), ?_, ?_⟩
    · intro i
      exact le_of_eq ((Nat.zero_add _).trans (hcount i).symm)
    · intro i hi
      exact absurd hi (lt_irrefl 0)
    · intro _ d i hd
      exact absurd hd (Finset.notMem_empty d)
    · intro _ i
      exact (Nat.zero_add _).trans (hcount i).symm
  keyed := by
    have hslot : ∀ i sl, (Runtime.new (pathNodeFs P)).table.slot i = some sl →
        i = NodeId.ROOT ∧ sl = rootSlot (pathNodeFs P) := by
      intro i sl hsl
      have h := slot_set (NodeTable.new : NodeTable (pathNodeFs P).Node) NodeId.ROOT i
        (rootSlot (pathNodeFs P))
      rw [show (Runtime.new (pathNodeFs P)).table.slot i = _ from h] at hsl
      split at hsl
      · next hi => exact ⟨hi, (Option.some.inj hsl).symm⟩
      · cases hsl
    have hkeys : ∀ k, Namespace.new.idForNode k = if k = 1 then some NodeId.ROOT else none :=
      fun k => BTreeMap.lookup_insert_ite _ 1 k NodeId.ROOT
    refine ⟨?_, ?_, ?_, ?_, ?_⟩
    · intro i sl hsl
      obtain ⟨rfl, rfl⟩ := hslot i sl hsl
      exact Or.inl rfl
    · intro i sl hsl
      obtain ⟨rfl, rfl⟩ := hslot i sl hsl
      exact Nat.one_lt_two
    · intro k j hkj
      have h := hkj
      rw [show (Runtime.new (pathNodeFs P)).fs.ns.idForNode k = _ from hkeys k] at h
      split at h
      · next hk => exact hk ▸ Nat.one_lt_two
      · cases h
    · intro x hx
      exact absurd hx (Multiset.notMem_zero x)
    · intro x hx
      exact absurd hx (Multiset.notMem_zero x)

/-- The logic of the adapter holds in every configuration of every run. -/
theorem path_holds
    {allow : Config (service (pathNodeFs P)) → Action (service (pathNodeFs P)) → Prop}
    (hallow : exact → ∀ c a, allow c a → NoOverwrite c a)
    {c : Config (service (pathNodeFs P))} (hr : Run allow (start (pathNodeFs P)) c) :
    (pathLogic P exact).Holds c :=
  Logic.holds_of_run (path_sound hallow) (Logic.holds_nil pathInv_new) hr

end TypedFuse
