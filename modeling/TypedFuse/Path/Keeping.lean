import TypedFuse.Path.Backed
import TypedFuse.Path.Enumeration

/-!
# What sequential runs of the adapter keep

A property of the names and the inode table holds between the requests of a sequential run if the
few steps by which requests change the two keep it: making a node in a directory with a path,
`link`, `unlink`, `rmdir` and `rename`, and what a listing makes and takes back (`Keeping`).  The
steps may be taken to meet a condition on the request, the instruction and the state before it.
-/

namespace TypedFuse

open Conc Conc.Service NodeTable TypedFuse.Runtime

variable {P : PathFilesystem} {n : ℕ} {α β D τ : Type}
  {ok : RtInstr (PathNodeFs.sig P) → RtState (PathNodeFs.sig P) → Prop}

/-! ## Callbacks under a condition -/

/-- Whatever a callback does alone with the names `ns` and the inode table `t` in steps that meet
the condition, it ends in `Q`. -/
def EffectIf (P : PathFilesystem)
    (ok : RtInstr (PathNodeFs.sig P) → RtState (PathNodeFs.sig P) → Prop) (n : ℕ)
    (ns : Namespace) (t : PathTable P) (p : PathNodeFs.Callback P α)
    (Q : α → Namespace → PathTable P → Prop) : Prop :=
  ∀ s : RtState (PathNodeFs.sig P), s.fs.ns = ns → s.table = t →
    (service (pathNodeFs P)).EnsuresIf ok n s (call (σ := PathNodeFs.sig P) p)
      fun a s' => Q a s'.fs.ns s'.table

/-- An instruction meets the condition in a state with these names and this inode table. -/
def Allowed (ok : RtInstr (PathNodeFs.sig P) → RtState (PathNodeFs.sig P) → Prop)
    (ns : Namespace) (t : PathTable P) (i : RtInstr (PathNodeFs.sig P)) : Prop :=
  ∃ s, s.fs.ns = ns ∧ s.table = t ∧ ok i s

/-- Binding a name to a new node met the condition. -/
def Recordable (ok : RtInstr (PathNodeFs.sig P) → RtState (PathNodeFs.sig P) → Prop)
    (d : Dentry) (ns : Namespace) (t : PathTable P) : Prop :=
  ∃ key id ns₁, ns = ns₁.record key id d ∧
    Allowed ok ns₁ t (.fs (FsInstr.own (σ := PathNodeFs.sig P) (.record key id d)))

namespace EffectIf

variable {ns : Namespace} {t : PathTable P}

lemma of_effect {p : PathNodeFs.Callback P α} {Q : α → Namespace → PathTable P → Prop}
    (h : Effect P n ns t p Q) : EffectIf P ok n ns t p Q :=
  fun s hns ht => EnsuresIf.of_ensures (h s hns ht)

lemma ret {a : α} {Q : α → Namespace → PathTable P → Prop} (h : Q a ns t) :
    EffectIf P ok n ns t (.ret a) Q :=
  of_effect (Effect.ret h)

lemma bind {p : PathNodeFs.Callback P α} {f : α → PathNodeFs.Callback P β}
    {Q : α → Namespace → PathTable P → Prop} {Q' : β → Namespace → PathTable P → Prop}
    (h : EffectIf P ok n ns t p Q)
    (hf : ∀ a ns' t', Q a ns' t' → EffectIf P ok n ns' t' (f a) Q') :
    EffectIf P ok n ns t (p >>= f) Q' := by
  intro s hns ht
  rw [call_bind]
  exact (h s hns ht).bind fun a s' ha => hf a _ _ ha s' rfl rfl

lemma mono {p : PathNodeFs.Callback P α} {Q Q' : α → Namespace → PathTable P → Prop}
    (h : EffectIf P ok n ns t p Q) (hQ : ∀ a ns' t', Q a ns' t' → Q' a ns' t') :
    EffectIf P ok n ns t p Q' :=
  fun s hns ht => (h s hns ht).mono fun a _ ha => hQ a _ _ ha

/-- A single instruction meets the condition. -/
lemma perform {i : FsInstr (PathNodeFs.sig P)}
    {Q : FsInstr.Resp i → Namespace → PathTable P → Prop}
    (h : Effect P n ns t (Prog.perform i) Q) :
    EffectIf P ok n ns t (Prog.perform i)
      fun a ns' t' => Q a ns' t' ∧ Allowed ok ns t (.fs i) := by
  intro s hns ht
  refine EnsuresIf.perform ?_
  intro hok ch r s' he
  exact ⟨h s hns ht ch r s' he, s, hns, ht, hok⟩

/-- A step of the locks or a call of the inner filesystem, then the rest. -/
lemma quiet {p : PathNodeFs.Callback P α} {f : α → PathNodeFs.Callback P β}
    {Q : β → Namespace → PathTable P → Prop}
    (h : Effect P n ns t p fun _ ns' t' => ns' = ns ∧ t' = t)
    (hf : ∀ a, EffectIf P ok n ns t (f a) Q) : EffectIf P ok n ns t (p >>= f) Q := by
  refine (of_effect h).bind ?_
  rintro a _ _ ⟨rfl, rfl⟩
  exact hf a

/-- Both branches of a conditional. -/
lemma ite {c : Prop} {_ : Decidable c} {p q : PathNodeFs.Callback P α}
    {Q : α → Namespace → PathTable P → Prop} (hp : c → EffectIf P ok n ns t p Q)
    (hq : ¬c → EffectIf P ok n ns t q Q) : EffectIf P ok n ns t (if c then p else q) Q := by
  split
  · next hc => exact hp hc
  · next hc => exact hq hc

/-- A callback under the write guard does what its body does. -/
lemma writing {body : PathNodeFs.Callback P α} {Q : α → Namespace → PathTable P → Prop}
    (h : EffectIf P ok n ns t body Q) : EffectIf P ok n ns t (PathNodeFs.writing body) Q := by
  refine quiet Effect.writeLock fun _ => h.bind ?_
  intro a ns' t' ha
  exact quiet Effect.writeUnlock fun _ => ret ha

/-- A callback under a read guard does what its body does. -/
lemma reading {body : PathNodeFs.Callback P α} {Q : α → Namespace → PathTable P → Prop}
    (h : EffectIf P ok n ns t body Q) : EffectIf P ok n ns t (PathNodeFs.reading body) Q := by
  refine quiet Effect.readLock fun _ => h.bind ?_
  intro a ns' t' ha
  exact quiet Effect.readUnlock fun _ => ret ha

/-- `self.path(id)?` fails or goes on with the path. -/
lemma withPathOf {id : NodeId} {next : Path → PathNodeFs.Callback P (Fallible α)}
    {Q : Fallible α → Namespace → PathTable P → Prop} (hfail : Q (fail .ENOENT) ns t)
    (h : ∀ p, ns.pathFor id = some (some p) → EffectIf P ok n ns t (next p) Q) :
    EffectIf P ok n ns t (PathNodeFs.withPathOf id next) Q := by
  refine (of_effect (Effect.pathFor id)).bind ?_
  rintro r _ _ ⟨hp, rfl, rfl⟩
  cases r with
  | none => exact ret hfail
  | some p => exact h p hp

/-- A call of the inner filesystem whose success is passed on. -/
lemma innerThen {p : PathNodeFs.Callback P (Fallible α)}
    {next : α → PathNodeFs.Callback P (Fallible β)}
    {Q : Fallible β → Namespace → PathTable P → Prop}
    (hp : Effect P n ns t p fun _ ns' t' => ns' = ns ∧ t' = t) (hfail : ∀ e, Q (.error e) ns t)
    (h : ∀ a, EffectIf P ok n ns t (next a) Q) :
    EffectIf P ok n ns t (p >>= fun r => PathNodeFs.onOk r next) Q := by
  refine quiet hp fun r => ?_
  cases r with
  | error e => exact ret (hfail e)
  | ok a => exact h a

lemma removeLinkOf (removed : Option NodeId) :
    EffectIf P ok n ns t (PathNodeFs.removeLinkOf removed) fun _ ns' t' =>
      ns' = ns ∧ t' = removed.elim t t.removeLink ∧
        ∀ id, removed = some id → Allowed ok ns t (.fs (.removeLink id)) := by
  cases removed with
  | none => exact ret ⟨rfl, rfl, fun id h => nomatch h⟩
  | some id =>
    refine (perform (Effect.removeLink id)).mono ?_
    rintro _ ns' t' ⟨⟨hns', ht'⟩, hok⟩
    refine ⟨hns', ht', ?_⟩
    intro id' hid
    rw [← Option.some.inj hid]
    exact hok

lemma addLink (id : NodeId) :
    EffectIf P ok n ns t (Prog.perform (FsInstr.addLink (σ := PathNodeFs.sig P) id))
      fun _ ns' t' => ns' = ns ∧ t.addLink id = some t' :=
  of_effect (Effect.addLink id)

/-- `Namespace::insert`. -/
lemma insert (parent : NodeId) (name : Name) :
    EffectIf P ok n ns t (PathNodeFs.insert parent name) fun r ns' t' =>
      Effect.Inserted ns t ⟨parent, name⟩ parent r ns' t' ∧
        (r.2 = true → Recordable ok ⟨parent, name⟩ ns' t') := by
  refine quiet Effect.nsLock fun _ => (of_effect (Effect.known _)).bind ?_
  rintro r _ _ ⟨hr, rfl, rfl⟩
  cases r with
  | some id =>
    exact quiet Effect.nsUnlock fun _ => ret ⟨.found hr.symm, fun h => nomatch h⟩
  | none =>
    refine (of_effect Effect.takeKey).bind ?_
    rintro key ns₁ _ ⟨hkey, rfl⟩
    refine (of_effect (Effect.insertNode _ parent)).bind ?_
    rintro id _ t' ⟨rfl, hins⟩
    refine (perform (Effect.record key id _)).bind ?_
    rintro _ _ _ ⟨⟨rfl, rfl⟩, hok⟩
    exact quiet Effect.nsUnlock fun _ =>
      ret ⟨.made hr.symm hkey hins, fun _ => ⟨key, id, _, rfl, hok⟩⟩

/-- What `enumerate` does: it leaves the names alone, or makes a node for a free name. -/
lemma enumerate (this parent : NodeId) (name : Name) :
    EffectIf P ok n ns t (PathNodeFs.enumerate this parent name) fun r ns' t' =>
      (r.2 = none ∧ ns' = ns ∧ t' = t) ∨
        (r.2 = some ⟨this, name⟩ ∧
          Effect.Inserted ns t ⟨this, name⟩ this (r.1, true) ns' t' ∧
          Recordable ok ⟨this, name⟩ ns' t') := by
  refine ite (fun _ => ret (Or.inl ⟨rfl, rfl, rfl⟩)) fun _ => ?_
  refine ite (fun _ => ret (Or.inl ⟨rfl, rfl, rfl⟩)) fun _ => ?_
  refine (insert this name).bind ?_
  rintro ⟨id, new⟩ ns' t' ⟨h, hok⟩
  cases new with
  | false =>
    cases h with
    | found hbound => exact ret (Or.inl ⟨rfl, rfl, rfl⟩)
  | true => exact ret (Or.inr ⟨rfl, h, hok rfl⟩)

end EffectIf

namespace Effect

variable {ns : Namespace} {t : PathTable P}

/-- The callbacks that look up a path for a node and call the inner filesystem with what they find
change neither the names nor the inode table. -/
lemma pathThen (node : PathNode) {f : Option Path → PathNodeFs.Callback P α}
    (hf : ∀ path, Effect P n ns t (f path) fun _ ns' t' => ns' = ns ∧ t' = t) :
    Effect P n ns t (PathNodeFs.reading (PathNodeFs.nodePath node >>= f))
      fun _ ns' t' => ns' = ns ∧ t' = t := by
  refine reading ((nodePath node).bind ?_)
  rintro path _ _ ⟨rfl, rfl⟩
  exact hf path

/-- Likewise for callbacks that fail without a path. -/
lemma withPath (node : PathNode) {f : Path → PathNodeFs.Callback P (Fallible α)}
    (hf : ∀ path, Effect P n ns t (f path) fun _ ns' t' => ns' = ns ∧ t' = t) :
    Effect P n ns t (PathNodeFs.reading (PathNodeFs.withPath node f))
      fun _ ns' t' => ns' = ns ∧ t' = t := by
  refine pathThen node fun path => ?_
  cases path with
  | none => exact ret ⟨rfl, rfl⟩
  | some path => exact hf path

/-- `rmdir` or `unlink` of the inner filesystem. -/
lemma removeInner (path : Path) (name : Name) (directory : Bool) (caller : Caller) :
    Effect P n ns t (PathNodeFs.removeInner path name directory caller)
      fun _ ns' t' => ns' = ns ∧ t' = t := by
  cases directory with
  | true => exact inner _
  | false => exact inner _

/-- `node_path` with a key that leads to a node: the path of that node. -/
lemma nodePath_for (node : PathNode) {id : NodeId} (hid : ns.idForNode node.key = some id) :
    Effect P n ns t (PathNodeFs.nodePath node)
      fun r ns' t' => ns' = ns ∧ t' = t ∧ ns.pathFor id = some r := by
  refine (nodeId node.key).bind ?_
  rintro r _ _ ⟨hr, rfl, rfl⟩
  rw [hid] at hr
  subst hr
  refine (pathFor id).mono ?_
  rintro r _ _ ⟨hp, rfl, rfl⟩
  exact ⟨rfl, rfl, hp⟩

end Effect

/-! ## What is kept -/

/-- A callback keeps a property in steps that meet a condition. -/
def Preserves (P : PathFilesystem)
    (ok : RtInstr (PathNodeFs.sig P) → RtState (PathNodeFs.sig P) → Prop)
    (I : Namespace → PathTable P → Prop) (p : PathNodeFs.Callback P α) : Prop :=
  ∀ n ns t, I ns t → EffectIf P ok n ns t p fun _ ns' t' => I ns' t'

/-- A property `I` of the names and the inode table that the requests keep in steps that meet a
condition, with the property `E` that a listing of a directory keeps while it may have to take the
given names back. -/
structure Keeping (P : PathFilesystem)
    (ok : Request → RtInstr (PathNodeFs.sig P) → RtState (PathNodeFs.sig P) → Prop)
    (I : Namespace → PathTable P → Prop)
    (E : NodeId → List Dentry → Namespace → PathTable P → Prop) : Prop where
  backed : ∀ {ns t}, I ns t → Backed False ns t
  calm : ∀ {ns t t'}, I ns t → t'.WF → Calm t t' → I ns t'
  inserted : ∀ {req ns t ns' t' parent name p r}, I ns t → ns.pathFor parent = some (some p) →
    Effect.Inserted ns t ⟨parent, name⟩ parent r ns' t' →
    (r.2 = true → Recordable (ok req) ⟨parent, name⟩ ns' t') → I ns' t'
  link : ∀ id newparent newname caller caller',
    Preserves P (ok (.makeOp (.link id newparent newname) caller')) I
      (PathNodeFs.link id newparent newname caller)
  treeOp : ∀ op caller caller', Preserves P (ok (.treeOp op caller')) I
    (PathNodeFs.treeOp op caller)
  listing : ∀ {ns t this p}, I ns t → ns.pathFor this = some (some p) → E this [] ns t
  emitted : ∀ {this ds ns t}, E this ds ns t → I ns t
  emittedCalm : ∀ {this ds ns t t'}, E this ds ns t → t'.WF → Calm t t' → E this ds ns t'
  fewer : ∀ {this ds ds' ns t}, E this ds ns t → (∀ d ∈ ds', d ∈ ds) → E this ds' ns t
  emit : ∀ {req this ds ns t name key ns₁ id t'}, E this ds ns t →
    ns.find ⟨this, name⟩ = none →
    ns.takeKey = some (key, ns₁) → t.insert (⟨key⟩ : PathNode) this = some (id, t') →
    Recordable (ok req) ⟨this, name⟩ (ns₁.record key id ⟨this, name⟩) t' →
    E this (ds ++ [⟨this, name⟩]) (ns₁.record key id ⟨this, name⟩) t'
  takeBack : ∀ {this ds ns t d id}, E this ds ns t → d ∈ ds → ns.find d = some id →
    E this ds (ns.remove d).2 (t.removeLink id)

namespace Preserves

variable {I : Namespace → PathTable P → Prop}

/-- A callback that changes neither the names nor the inode table. -/
lemma of_quiet {p : PathNodeFs.Callback P α}
    (h : ∀ n ns t, Effect P n ns t p fun _ ns' t' => ns' = ns ∧ t' = t) :
    Preserves P ok I p := by
  intro n ns t hI
  refine EffectIf.of_effect ((h n ns t).mono ?_)
  rintro a _ _ ⟨rfl, rfl⟩
  exact hI

end Preserves

section Requests

variable {okReq : Request → RtInstr (PathNodeFs.sig P) → RtState (PathNodeFs.sig P) → Prop}
  {I : Namespace → PathTable P → Prop}
  {E : NodeId → List Dentry → Namespace → PathTable P → Prop}
  {req : Request}

namespace Keeping

/-! ## Callbacks that make nodes -/

/-- Adding a node in a directory with a path. -/
lemma addNode (hk : Keeping P okReq I E) {ns : Namespace} {t : PathTable P} (hI : I ns t)
    {parent : NodeId} {name : Name} {p : Path} (hp : ns.pathFor parent = some (some p))
    {f : NodeId → PathNodeFs.Callback P α}
    (hf : ∀ id ns' t', I ns' t' →
      EffectIf P (okReq req) n ns' t' (f id) fun _ ns' t' => I ns' t') :
    EffectIf P (okReq req) n ns t (PathNodeFs.addNode parent name >>= f)
      fun _ ns' t' => I ns' t' := by
  have hadd : EffectIf P (okReq req) n ns t (PathNodeFs.addNode parent name)
      fun _ ns' t' => I ns' t' := by
    refine (EffectIf.insert parent name).bind ?_
    rintro r ns' t' ⟨hins, hok⟩
    exact EffectIf.ret (hk.inserted hI hp hins hok)
  exact hadd.bind hf

lemma lookup (hk : Keeping P okReq I E) (parent : NodeId) (name : Name) (caller : Caller) :
    Preserves P (okReq req) I (PathNodeFs.lookup parent name caller) := by
  intro n ns t hI
  refine EffectIf.reading (EffectIf.withPathOf hI fun p hp => ?_)
  refine EffectIf.innerThen (Effect.inner _) (fun e => hI) fun attr => ?_
  cases attr with
  | none => exact EffectIf.ret hI
  | some attr => exact hk.addNode hI hp fun id ns' t' h => EffectIf.ret h

lemma makeNode (hk : Keeping P okReq I E) (parent : NodeId) (name : Name)
    {make : Path → PathNodeFs.Callback P (Fallible NodeAttr)}
    (hmake : ∀ n p ns t, Effect P n ns t (make p) fun _ ns' t' => ns' = ns ∧ t' = t) :
    Preserves P (okReq req) I (PathNodeFs.makeNode parent name make) := by
  intro n ns t hI
  refine EffectIf.writing (EffectIf.withPathOf hI fun p hp => ?_)
  refine EffectIf.innerThen (hmake n p ns t) (fun e => hI) fun attr => ?_
  exact hk.addNode hI hp fun id ns' t' h => EffectIf.ret h

lemma create (hk : Keeping P okReq I E) (parent : NodeId) (name : Name) (mode umask : ℕ)
    (flags : ℤ) (caller : Caller) :
    Preserves P (okReq req) I (PathNodeFs.create parent name mode umask flags caller) := by
  intro n ns t hI
  refine EffectIf.writing (EffectIf.withPathOf hI fun p hp => ?_)
  refine EffectIf.innerThen (Effect.inner _) (fun e => hI) fun r => ?_
  exact hk.addNode hI hp fun id ns' t' h => EffectIf.ret h

lemma makeOp (hk : Keeping P okReq I E) (op : MakeOp) (caller caller' : Caller) :
    Preserves P (okReq (.makeOp op caller')) I (PathNodeFs.makeOp op caller) := by
  cases op with
  | mknod parent name mode rdev umask =>
    exact hk.makeNode parent name fun n p _ _ => Effect.inner _
  | mkdir parent name mode umask => exact hk.makeNode parent name fun n p _ _ => Effect.inner _
  | symlink parent name target => exact hk.makeNode parent name fun n p _ _ => Effect.inner _
  | link id newparent newname => exact hk.link id newparent newname caller caller'

end Keeping

/-! ## Listings -/

/-- What the runtime does beside the callbacks: the filesystem stays, and only references change
which the names do not stand for. -/
def Aside (n : ℕ) (p : RtProg (pathNodeFs P).toFsSig α) : Prop :=
  ∀ s : RtState (pathNodeFs P).toFsSig, s.table.WF →
    (service (pathNodeFs P)).Ensures n s p fun _ s' =>
      s'.fs = s.fs ∧ s'.table.WF ∧ Calm s.table s'.table

lemma framed_aside : Framed (pathNodeFs P) (Aside (P := P) n) where
  ret := fun a s hwf => ⟨rfl, hwf, .refl _⟩
  bind := by
    intro α β p f hp hf s hwf
    refine (hp s hwf).bind ?_
    rintro a s₁ ⟨hfs, hwf₁, hcalm⟩
    refine (hf a s₁ hwf₁).mono ?_
    rintro b s₂ ⟨hfs₂, hwf₂, hcalm₂⟩
    exact ⟨hfs₂.trans hfs, hwf₂, hcalm.trans hcalm₂⟩
  sect := by
    intro i hi s hwf
    refine Ensures.perform ?_
    intro ch r s' he
    obtain ⟨hcalm, hfs⟩ := calm_exec hi he
    exact ⟨hfs, wf_exec hwf he, hcalm⟩

/-- A sink of the runtime that works beside the callbacks. -/
structure SinkAside (n : ℕ) (h : (i : DirInstr (PathNodeFs.sig P) D) → τ →
    RtProg (PathNodeFs.sig P) (i.Resp × τ)) : Prop where
  fs : ∀ i acc, h (.fs i) acc = Runtime.sect (.fs i) >>= fun r => .ret (r, acc)
  add : ∀ name id data nextOffset acc, Aside (P := P) n (h (.add name id data nextOffset) acc)

namespace Keeping

variable {h : (i : DirInstr (PathNodeFs.sig P) D) → τ →
    RtProg (PathNodeFs.sig P) (i.Resp × τ)}
  {this parent : NodeId}

/-- Taking a name back. -/
lemma removeDentry (hk : Keeping P okReq I E) {ds : List Dentry} {d : Dentry} (hd : d ∈ ds)
    {ns : Namespace} {t : PathTable P} (hE : E this ds ns t) :
    EffectIf P ok n ns t (PathNodeFs.removeDentry d) fun _ ns' t' => E this ds ns' t' := by
  refine EffectIf.of_effect ((Effect.removeDentry d).mono ?_)
  rintro _ _ _ ⟨rfl, rfl⟩
  cases hfind : ns.find d with
  | none =>
    rw [Namespace.remove_of_unbound hfind]
    exact hE
  | some id => exact hk.takeBack hE hd hfind

/-- Taking all names back. -/
lemma rollback (hk : Keeping P okReq I E) {ds : List Dentry} (rest : List Dentry)
    (hrest : ∀ d ∈ rest, d ∈ ds) {ns : Namespace} {t : PathTable P} (hE : E this ds ns t) :
    EffectIf P ok n ns t (PathNodeFs.rollback rest) fun _ ns' t' => E this ds ns' t' := by
  induction rest generalizing ns t with
  | nil => exact EffectIf.ret hE
  | cons d rest ih =>
    refine (hk.removeDentry (hrest d List.mem_cons_self) hE).bind ?_
    intro _ ns' t' hE'
    exact ih (fun d' hd' => hrest d' (List.mem_cons_of_mem d hd')) hE'

/-- Every entry that the inner filesystem emits keeps the listing at work. -/
lemma emitAll (hk : Keeping P okReq I E) (hok : SinkAside n h) (listing : Listing D)
    (ds : List Dentry) (acc : τ) (s : RtState (PathNodeFs.sig P))
    (hE : E this ds s.fs.ns s.table) :
    (service (pathNodeFs P)).EnsuresIf (okReq req) n s
      ((PathNodeFs.emitAll this parent listing ds).handle h acc)
      fun r s' => E this r.1.2 s'.fs.ns s'.table := by
  induction listing generalizing ds acc s with
  | finish result => exact hE
  | emit name data nextOffset next ih =>
    -- the sink answers, and the rest of the listing goes on
    have hadd : ∀ (id : NodeId) (ds' : List Dentry) (s₁ : RtState (PathNodeFs.sig P)),
        E this ds' s₁.fs.ns s₁.table →
        (service (pathNodeFs P)).EnsuresIf (okReq req) n s₁
          (h (.add name id data nextOffset) acc) fun _ s' => E this ds' s'.fs.ns s'.table := by
      intro id ds' s₁ hE₁
      refine EnsuresIf.of_ensures ((hok.add name id data nextOffset acc s₁ ?_).mono ?_)
      · exact (hk.backed (hk.emitted hE₁)).wf
      · rintro _ s₂ ⟨hfs, hwf, hcalm⟩
        rw [hfs]
        exact hk.emittedCalm hE₁ hwf hcalm
    refine ensuresIf_inDir hok.fs
      (EnsuresIf.mono (EffectIf.enumerate (n := n) this parent name s rfl rfl) ?_)
    rintro ⟨id, dentry⟩ s₁ (⟨rfl, hns, ht⟩ | ⟨rfl, hins, hrec⟩)
    · have hE₁ : E this ds s₁.fs.ns s₁.table := by
        rw [hns, ht]
        exact hE
      refine EnsuresIf.bind (hadd id ds s₁ hE₁) ?_
      rintro ⟨accepted, acc'⟩ s₂ hE₂
      exact ih accepted ds acc' s₂ hE₂
    · have hE₁ : E this (ds ++ [⟨this, name⟩]) s₁.fs.ns s₁.table := by
        generalize s₁.fs.ns = ns₁ at hins hrec
        generalize s₁.table = t₁ at hins hrec
        cases hins with
        | made hfree hkey hinsert => exact hk.emit hE hfree hkey hinsert hrec
      refine EnsuresIf.bind (hadd id _ s₁ hE₁) ?_
      rintro ⟨accepted, acc'⟩ s₂ hE₂
      cases accepted with
      | true => exact ih true _ acc' s₂ hE₂
      | false =>
        refine ensuresIf_inDir hok.fs
          (EnsuresIf.mono (hk.removeDentry (n := n) (by simp) hE₂ s₂ rfl rfl) ?_)
        intro _ s₃ hE₃
        exact ih false ds acc' s₃ (hk.fewer hE₃ fun d hd => List.mem_append.mpr (Or.inl hd))

/-- `readdir` and `readdirplus` with a sink of the runtime. -/
lemma listDir (hk : Keeping P okReq I E) (hok : SinkAside n h) (node : PathNode)
    {list : Path → PathNodeFs.Callback P (Listing D)}
    (hlist : ∀ p ns t, Effect P n ns t (list p) fun _ ns' t' => ns' = ns ∧ t' = t)
    (acc : τ) {s : RtState (PathNodeFs.sig P)} (hI : I s.fs.ns s.table)
    (hid : s.fs.ns.idForNode node.key = some this) :
    (service (pathNodeFs P)).EnsuresIf (okReq req) n s
      ((PathNodeFs.listDir node this parent list).handle h acc)
      fun _ s' => I s'.fs.ns s'.table := by
  refine ensuresIf_inDir hok.fs
    (EnsuresIf.of_ensures (Ensures.mono (Effect.readLock (n := n) s rfl rfl) ?_))
  rintro _ s₁ ⟨hns₁, ht₁⟩
  rw [← hns₁, ← ht₁] at hI
  rw [← hns₁] at hid
  refine ensuresIf_inDir hok.fs (EnsuresIf.of_ensures
    (Ensures.mono (Effect.nodePath_for (n := n) node hid s₁ rfl rfl) ?_))
  rintro path s₂ ⟨hns₂, ht₂, hpath⟩
  rw [← hns₂, ← ht₂] at hI
  rw [← hns₂] at hpath
  cases path with
  | none =>
    refine ensuresIf_inDir hok.fs
      (EnsuresIf.of_ensures (Ensures.mono (Effect.readUnlock (n := n) s₂ rfl rfl) ?_))
    rintro _ s₃ ⟨hns₃, ht₃⟩
    rw [← hns₃, ← ht₃] at hI
    exact hI
  | some path =>
    refine ensuresIf_inDir hok.fs
      (EnsuresIf.of_ensures (Ensures.mono (hlist path _ _ s₂ rfl rfl) ?_))
    rintro listing s₃ ⟨hns₃, ht₃⟩
    rw [← hns₃, ← ht₃] at hI
    rw [← hns₃] at hpath
    refine ensuresIf_handle_bind (hk.emitAll hok listing [] acc s₃ (hk.listing hI hpath)) ?_
    rintro ⟨⟨result, ds⟩, acc'⟩ s₄ hE₄
    have hundo : EffectIf P (okReq req) n s₄.fs.ns s₄.table (PathNodeFs.undo result ds)
        fun _ ns' t' => E this ds ns' t' := by
      match result with
      | .ok _ => exact EffectIf.ret hE₄
      | .error .panic => exact EffectIf.ret hE₄
      | .error (.errno _) =>
        exact hk.rollback _ (fun d hd => List.mem_reverse.mp hd) hE₄
    refine ensuresIf_inDir hok.fs (EnsuresIf.mono (hundo s₄ rfl rfl) ?_)
    intro _ s₅ hE₅
    refine ensuresIf_inDir hok.fs
      (EnsuresIf.of_ensures (Ensures.mono (Effect.readUnlock (n := n) s₅ rfl rfl) ?_))
    rintro _ s₆ ⟨hns₆, ht₆⟩
    have hend := hk.emitted hE₅
    rw [← hns₆, ← ht₆] at hend
    exact hend

/-- A listing within the scopes of its directory and its handle. -/
lemma listing_scopes (hk : Keeping P okReq I E) {ino fh : ℕ}
    {body : NodeRef (pathNodeFs P).Node → NodeId → (pathNodeFs P).Payload .dir →
      RtProg (pathNodeFs P).toFsSig (Fallible α)}
    {scope : NodeRef (pathNodeFs P).Node → Option NodeId →
      RtProg (pathNodeFs P).toFsSig (Fallible α)}
    (hnone : ∀ node, scope node none = .ret (fail .ENOENT))
    (hsome : ∀ node parent, scope node (some parent) = withHandle .dir ino fh (body node parent))
    (hbody : ∀ (node : NodeRef (pathNodeFs P).Node) parent handle
      (s : RtState (pathNodeFs P).toFsSig), I s.fs.ns s.table →
      s.fs.ns.idForNode (PathNode.key node.record.payload) = some ino →
      LeadsIf (pathNodeFs P) (okReq req) n s (body node parent handle) fun _ t f => I f.ns t)
    {s : RtState (pathNodeFs P).toFsSig} (hI : I s.fs.ns s.table) :
    LeadsIf (pathNodeFs P) (okReq req) n s
      (withNode ino fun node => Runtime.sect (.parentOf ino) >>= scope node) fun _ t f =>
         I f.ns t := by
  refine LeadsIf.withNode (fun _ => hI) ?_
  intro sl s₁ hsl hinc hfs
  have hkey : s.fs.ns.idForNode (PathNode.key sl.record.payload) = some ino := by
    rcases (hk.backed hI).keyed.slotKey ino sl hsl with hkey | ⟨x, hx, _⟩
    · exact hkey
    · exact absurd hx (Multiset.notMem_zero x)
  have hI₁ : I s₁.fs.ns s₁.table := by
    rw [hfs]
    exact hk.calm hI ((hk.backed hI).wf.incr hinc) (Calm.incr (by decide) hinc)
  rw [← hfs] at hkey
  have hscope : LeadsIf (pathNodeFs P) (okReq req) n s₁
      (Runtime.sect (.parentOf ino) >>= scope ⟨ino, sl.record⟩) fun _ t f => I f.ns t := by
    refine LeadsIf.inert (by trivial) ?_
    intro parent s₂ ht₂ hf₂
    rw [← ht₂, ← hf₂] at hI₁
    rw [← hf₂] at hkey
    cases parent with
    | none =>
      rw [hnone]
      exact hI₁
    | some parent =>
      rw [hsome]
      refine LeadsIf.withHandle hI₁ ?_
      intro payload s₃ ht₃ hf₃
      rw [← ht₃, ← hf₃] at hI₁
      rw [← hf₃] at hkey
      exact hbody _ parent payload s₃ hI₁ hkey
  refine EnsuresIf.mono hscope ?_
  intro r s₂ h
  exact hk.calm h ((hk.backed h).wf.dropRef _) (Calm.dropRef _ _)

lemma readdir (hk : Keeping P okReq I E) (ino fh offset : ℕ) (sink : Sink DirEntry)
    (caller : Caller) {s : RtState (pathNodeFs P).toFsSig} (hI : I s.fs.ns s.table) :
    LeadsIf (pathNodeFs P) (okReq req) n s (
      Runtime.readdir (pathNodeFs P) ino fh offset sink caller)
      fun _ t f => I f.ns t := by
  refine hk.listing_scopes (fun _ => rfl) (fun _ _ => rfl) ?_ hI
  intro node parent handle s hI hid
  refine EnsuresIf.bind (hk.listDir ⟨fun _ _ => rfl, ?_⟩ node.record.payload
    (fun p _ _ => Effect.inner (.readdir p handle offset caller)) [] hI hid) ?_
  · intro name id kind nextOffset offered s hwf
    exact ⟨rfl, hwf, .refl _⟩
  · intro r s' h
    exact h

lemma readdirplus (hk : Keeping P okReq I E) (ino fh offset : ℕ) (sink : Sink PlusEntry)
    (caller : Caller) {s : RtState (pathNodeFs P).toFsSig} (hI : I s.fs.ns s.table) :
    LeadsIf (pathNodeFs P) (okReq req) n s
      (Runtime.readdirplus (pathNodeFs P) ino fh offset sink caller) fun _ t f => I f.ns t := by
  refine hk.listing_scopes (fun _ => rfl) (fun _ _ => rfl) ?_ hI
  intro node parent handle s hI hid
  refine EnsuresIf.bind (hk.listDir ⟨fun _ _ => rfl, ?_⟩ node.record.payload
    (fun p _ _ => Effect.inner (.readdirplus p handle offset caller)) ({} : Accounting) hI hid) ?_
  · intro name id attr nextOffset acc
    exact framed_aside.accounting sink acc name id attr nextOffset
  · rintro ⟨r, acc⟩ s' hI'
    have haside : ∀ {p : RtProg (pathNodeFs P).toFsSig Unit}, Aside (P := P) n p →
        (service (pathNodeFs P)).EnsuresIf (okReq req) n s' p fun _ s'' =>
        I s''.fs.ns s''.table := by
      intro p hp
      refine EnsuresIf.of_ensures ((hp s' (hk.backed hI').wf).mono ?_)
      rintro _ s₁ ⟨hfs, hwf, hcalm⟩
      rw [hfs]
      exact hk.calm hI' hwf hcalm
    match r with
    | .ok _ => exact hI'
    | .error (.errno _) =>
      refine (haside (framed_aside.forgetAll acc.accepted)).bind ?_
      intro _ s₁ h
      exact h
    | .error .panic =>
      refine (haside (framed_aside.sect (by simp))).bind ?_
      intro _ s₁ h
      exact h

end Keeping

/-! ## Requests and runs -/

/-- Whatever a program of the runtime does alone in steps that meet a condition, it keeps a property
of the names and the inode table. -/
def Through (ok : RtInstr (PathNodeFs.sig P) → RtState (PathNodeFs.sig P) → Prop)
    (I : Namespace → PathTable P → Prop) (n : ℕ) (p : RtProg (pathNodeFs P).toFsSig α) :
    Prop :=
  ∀ s : RtState (pathNodeFs P).toFsSig, I s.fs.ns s.table →
    (service (pathNodeFs P)).EnsuresIf ok n s p fun _ s' => I s'.fs.ns s'.table

lemma Preserves.through {p : PathNodeFs.Callback P α} (h : Preserves P ok I p) :
    Through ok I n (call (σ := PathNodeFs.sig P) p) :=
  fun s hI => h n _ _ hI s rfl rfl

namespace Keeping

/-- The callbacks that neither make nor remove nor look up names keep the property. -/
lemma steady (hk : Keeping P okReq I E) :
    Steady (pathNodeFs P) (Through (okReq req) I n) where
  ret := fun a s hI => hI
  bind := fun hp hf s hI => (hp s hI).bind fun a s' h => hf a s' h
  sect := by
    intro i hi s hI
    refine EnsuresIf.of_ensures ((framed_aside.sect hi s (hk.backed hI).wf).mono ?_)
    rintro _ s' ⟨hfs, hwf, hcalm⟩
    rw [hfs]
    exact hk.calm hI hwf hcalm
  populate := fun s hI => hI
  getattr := fun node h caller =>
    (Preserves.of_quiet fun n ns t => Effect.pathThen node
      fun path => Effect.inner (.getattr path h caller)).through
  setattr := fun node h set caller =>
    (Preserves.of_quiet fun n ns t => Effect.pathThen node
      fun path => Effect.inner (.setattr path h set caller)).through
  nodeOp := fun op node caller =>
    (Preserves.of_quiet fun n ns t => Effect.withPath node
      fun path => Effect.inner (.nodeOp op path caller)).through
  fileOp := fun op node h caller =>
    (Preserves.of_quiet fun n ns t => Effect.pathThen node
      fun path => Effect.inner (.fileOp op path h caller)).through
  fsyncdir := fun node h datasync caller =>
    (Preserves.of_quiet fun n ns t => Effect.pathThen node
      fun path => Effect.inner (.fsyncdir path h datasync caller)).through
  statfs := fun caller =>
    (Preserves.of_quiet fun n ns t => Effect.reading (Effect.inner _)).through
  openNode := fun k node flags caller =>
    (Preserves.of_quiet fun n ns t => Effect.withPath node
      fun path => Effect.inner (.openNode k path flags caller)).through
  release := fun k node h caller =>
    (Preserves.of_quiet fun n ns t => Effect.pathThen node
      fun path => Effect.inner (.release k path h caller)).through

/-- Every request keeps the property in steps that meet the condition. -/
theorem serve (hk : Keeping P okReq I E) (req : Request) :
    Through (okReq req) I n (serve (pathNodeFs P) req) := by
  refine hk.steady.serve req ?_ ?_ ?_ ?_ ?_ ?_
  · intro ino fh offset sink caller _ s hI
    exact hk.readdir ino fh offset sink caller hI
  · intro ino fh offset sink caller _ s hI
    exact hk.readdirplus ino fh offset sink caller hI
  · intro parent name caller _
    exact (hk.lookup parent name caller).through
  · rintro op caller rfl
    exact (hk.makeOp op caller caller).through
  · rintro op caller rfl
    exact (hk.treeOp op caller caller).through
  · intro parent name mode umask flags caller _
    exact (hk.create parent name mode umask flags caller).through

/-- The property holds between the requests of every sequential run with steps that meet the
condition. -/
theorem holds (hk : Keeping P okReq I E)
    (hstart : I Namespace.new (Runtime.new (pathNodeFs P)).table)
    {c : Config (service (pathNodeFs P))}
    (hr : Run (fun c a => oneAtATime c a ∧ c.StepOk okReq a) (start (pathNodeFs P)) c)
    (hq : c.Quiet) : I c.state.fs.ns c.state.table := by
  refine sequential_invariant
    (I := fun s : RtState (pathNodeFs P).toFsSig => I s.fs.ns s.table) ?_ hstart ?_ hr hq
  · intro t ht
    exact absurd ht List.not_mem_nil
  · intro n req s₀ s h hs
    obtain rfl := Option.some.inj hs
    have hissue : I (issue n req s₀).fs.ns (issue n req s₀).table := by
      cases req with
      | _ => exact h
    refine (hk.serve req _ hissue).mono ?_
    intro a s' h'
    exact h'

end Keeping

end Requests

end TypedFuse
