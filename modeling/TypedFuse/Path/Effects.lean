import TypedFuse.Conc.Sequential
import TypedFuse.Path.Callbacks

/-!
# What callbacks do alone

A callback that runs alone changes the names and the inode table and nothing else that another
callback could see.  `Effect` follows these two through a callback; the locks and the state of the
inner filesystem are left out, since a callback that gets through gets through whatever they were.
-/

namespace TypedFuse

open Conc Conc.Service NodeTable TypedFuse.Runtime

variable {P : PathFilesystem} {n : ℕ} {α β : Type}

/-- The inode table of the adapter. -/
abbrev PathTable (P : PathFilesystem) : Type :=
  NodeTable (PathNodeFs.sig P).Node

/-- Whatever a callback does alone with the names `ns` and the inode table `t`, it ends in `Q`. -/
def Effect (P : PathFilesystem) (n : ℕ) (ns : Namespace) (t : PathTable P)
    (p : PathNodeFs.Callback P α) (Q : α → Namespace → PathTable P → Prop) : Prop :=
  ∀ s : RtState (PathNodeFs.sig P), s.fs.ns = ns → s.table = t →
    (service (pathNodeFs P)).Ensures n s (call (σ := PathNodeFs.sig P) p) fun a s' =>
    Q a s'.fs.ns s'.table

namespace Effect

variable {ns : Namespace} {t : PathTable P}

lemma ret {a : α} {Q : α → Namespace → PathTable P → Prop} (h : Q a ns t) :
    Effect P n ns t (.ret a) Q := by
  rintro s rfl rfl
  exact h

lemma mono {p : PathNodeFs.Callback P α} {Q Q' : α → Namespace → PathTable P → Prop}
    (h : Effect P n ns t p Q) (hQ : ∀ a ns' t', Q a ns' t' → Q' a ns' t') :
    Effect P n ns t p Q' :=
  fun s hns ht => (h s hns ht).mono fun a _ ha => hQ a _ _ ha

lemma bind {p : PathNodeFs.Callback P α} {f : α → PathNodeFs.Callback P β}
    {Q : α → Namespace → PathTable P → Prop} {Q' : β → Namespace → PathTable P → Prop}
    (h : Effect P n ns t p Q) (hf : ∀ a ns' t', Q a ns' t' → Effect P n ns' t' (f a) Q') :
    Effect P n ns t (p >>= f) Q' := by
  intro s hns ht
  rw [call_bind]
  exact (h s hns ht).bind fun a s' ha => hf a _ _ ha s' rfl rfl

/-- Both branches of a conditional. -/
lemma ite {c : Prop} {_ : Decidable c} {p q : PathNodeFs.Callback P α}
    {Q : α → Namespace → PathTable P → Prop} (hp : c → Effect P n ns t p Q)
    (hq : ¬c → Effect P n ns t q Q) : Effect P n ns t (if c then p else q) Q := by
  split
  · next hc => exact hp hc
  · next hc => exact hq hc

/-- An own step of the adapter. -/
lemma own {i : PathInstr P} {Q : i.Resp → Namespace → PathTable P → Prop}
    (h : ∀ (f f' : PathState P) ch r, f.ns = ns → f.exec n i ch = some (r, f') →
      Q r f'.ns t) :
    Effect P n ns t (PathNodeFs.own i) Q := by
  rintro s hns rfl
  refine Ensures.perform ?_
  intro ch r s' he
  cases ch with
  | none => cases he
  | some ch =>
    obtain ⟨⟨r', f'⟩, hf, heq⟩ := Option.map_eq_some_iff.mp he
    obtain ⟨rfl, rfl⟩ := Prod.mk.inj heq
    exact h s.fs f' ch r' hns hf

/-- A step of the locks or a call of the inner filesystem. -/
lemma quiet {i : PathInstr P}
    (h : ∀ (f f' : PathState P) ch r, f.exec n i ch = some (r, f') → f'.ns = f.ns) :
    Effect P n ns t (PathNodeFs.own i) fun _ ns' t' => ns' = ns ∧ t' = t :=
  own fun f f' ch r hns he => ⟨(h f f' ch r he).trans hns, rfl⟩

lemma readLock : Effect P n ns t (PathNodeFs.own .readLock) fun _ ns' t' =>
    ns' = ns ∧ t' = t := by
  refine quiet ?_
  intro f f' ch r he
  rw [PathState.exec] at he
  split at he
  · cases he
  · obtain ⟨_, rfl⟩ := Prod.mk.inj (Option.some.inj he)
    rfl

lemma writeLock :
    Effect P n ns t (PathNodeFs.own .writeLock) fun _ ns' t' => ns' = ns ∧ t' = t := by
  refine quiet ?_
  intro f f' ch r he
  rw [PathState.exec] at he
  split at he
  · cases he
  · obtain ⟨_, rfl⟩ := Prod.mk.inj (Option.some.inj he)
    rfl

lemma nsLock : Effect P n ns t (PathNodeFs.own .nsLock) fun _ ns' t' => ns' = ns ∧ t' = t := by
  refine quiet ?_
  intro f f' ch r he
  rw [PathState.exec] at he
  split at he
  · cases he
  · obtain ⟨_, rfl⟩ := Prod.mk.inj (Option.some.inj he)
    rfl

lemma readUnlock :
    Effect P n ns t (PathNodeFs.own .readUnlock) fun _ ns' t' => ns' = ns ∧ t' = t := by
  refine quiet ?_
  intro f f' ch r he
  obtain ⟨_, rfl⟩ := Prod.mk.inj (Option.some.inj he)
  rfl

lemma writeUnlock :
    Effect P n ns t (PathNodeFs.own .writeUnlock) fun _ ns' t' => ns' = ns ∧ t' = t := by
  refine quiet ?_
  intro f f' ch r he
  obtain ⟨_, rfl⟩ := Prod.mk.inj (Option.some.inj he)
  rfl

lemma nsUnlock :
    Effect P n ns t (PathNodeFs.own .nsUnlock) fun _ ns' t' => ns' = ns ∧ t' = t := by
  refine quiet ?_
  intro f f' ch r he
  obtain ⟨_, rfl⟩ := Prod.mk.inj (Option.some.inj he)
  rfl

/-- The answer of the inner filesystem is one that it has to the call. -/
lemma answered (c : PathCall P.Payload) :
    Effect P n ns t (PathNodeFs.inner c) fun r ns' t' =>
      (∃ ch f f', P.call c ch f = some (r, f')) ∧ ns' = ns ∧ t' = t := by
  refine own ?_
  intro f f' ch r hns he
  obtain ⟨⟨r', g⟩, hcall, heq⟩ := Option.map_eq_some_iff.mp he
  obtain ⟨rfl, rfl⟩ := Prod.mk.inj heq
  exact ⟨⟨ch, f.inner, g, hcall⟩, hns, rfl⟩

lemma inner (c : PathCall P.Payload) :
    Effect P n ns t (PathNodeFs.inner c) fun _ ns' t' => ns' = ns ∧ t' = t :=
  (answered c).mono fun _ _ _ h => h.2

lemma nodeId (key : ℕ) : Effect P n ns t (PathNodeFs.own (.nodeId key))
    fun r ns' t' => r = ns.idForNode key ∧ ns' = ns ∧ t' = t := by
  refine own ?_
  rintro f f' ch r rfl he
  rw [PathState.exec] at he
  split at he
  · cases he
  · obtain ⟨rfl, rfl⟩ := Prod.mk.inj (Option.some.inj he)
    exact ⟨rfl, rfl, rfl⟩

lemma pathFor (id : NodeId) : Effect P n ns t (PathNodeFs.own (.pathFor id))
    fun r ns' t' => ns.pathFor id = some r ∧ ns' = ns ∧ t' = t := by
  refine own ?_
  rintro f f' ch r rfl he
  rw [PathState.exec] at he
  split at he
  · cases he
  · obtain ⟨p, hp, heq⟩ := Option.map_eq_some_iff.mp he
    obtain ⟨rfl, rfl⟩ := Prod.mk.inj heq
    exact ⟨hp, rfl, rfl⟩

lemma find (d : Dentry) : Effect P n ns t (PathNodeFs.own (.find d))
    fun r ns' t' => r = ns.find d ∧ ns' = ns ∧ t' = t := by
  refine own ?_
  rintro f f' ch r rfl he
  obtain ⟨rfl, rfl⟩ := Prod.mk.inj (Option.some.inj he)
  exact ⟨rfl, rfl, rfl⟩

lemma known (d : Dentry) : Effect P n ns t (PathNodeFs.own (.known d))
    fun r ns' t' => r = ns.find d ∧ ns' = ns ∧ t' = t := by
  refine own ?_
  rintro f f' ch r rfl he
  obtain ⟨rfl, rfl⟩ := Prod.mk.inj (Option.some.inj he)
  exact ⟨rfl, rfl, rfl⟩

lemma takeKey : Effect P n ns t (PathNodeFs.own .takeKey)
    fun r ns' t' => ns.takeKey = some (r, ns') ∧ t' = t := by
  refine own ?_
  rintro f f' ch r rfl he
  obtain ⟨⟨r', ns'⟩, hk, heq⟩ := Option.map_eq_some_iff.mp he
  obtain ⟨rfl, rfl⟩ := Prod.mk.inj heq
  exact ⟨hk, rfl⟩

lemma record (key : ℕ) (id : NodeId) (d : Dentry) :
    Effect P n ns t (PathNodeFs.own (.record key id d))
      fun _ ns' t' => ns' = ns.record key id d ∧ t' = t := by
  refine own ?_
  rintro f f' ch r rfl he
  obtain ⟨_, rfl⟩ := Prod.mk.inj (Option.some.inj he)
  exact ⟨rfl, rfl⟩

lemma remove (d : Dentry) : Effect P n ns t (PathNodeFs.own (.remove d))
    fun r ns' t' => r = ns.find d ∧ ns' = (ns.remove d).2 ∧ t' = t := by
  refine own ?_
  rintro f f' ch r rfl he
  obtain ⟨rfl, rfl⟩ := Prod.mk.inj (Option.some.inj he)
  exact ⟨Namespace.remove_fst, rfl, rfl⟩

lemma addAlias (id : NodeId) (d : Dentry) : Effect P n ns t (PathNodeFs.own (.addAlias id d))
    fun _ ns' t' => ns' = ns.addAlias id d ∧ t' = t := by
  refine own ?_
  rintro f f' ch r rfl he
  obtain ⟨_, rfl⟩ := Prod.mk.inj (Option.some.inj he)
  exact ⟨rfl, rfl⟩

/-! ### The methods of `Cx` -/

lemma insertNode (payload : PathNode) (parent : NodeId) :
    Effect P n ns t (Prog.perform (FsInstr.insert (σ := PathNodeFs.sig P) payload parent))
      fun id ns' t' => ns' = ns ∧ t.insert payload parent = some (id, t') := by
  rintro s rfl rfl
  refine Ensures.perform ?_
  intro ch id s' he
  obtain ⟨⟨id', t'⟩, hins, heq⟩ := Option.map_eq_some_iff.mp he
  obtain ⟨rfl, rfl⟩ := Prod.mk.inj heq
  exact ⟨rfl, hins⟩

lemma addLink (id : NodeId) :
    Effect P n ns t (Prog.perform (FsInstr.addLink (σ := PathNodeFs.sig P) id))
      fun _ ns' t' => ns' = ns ∧ t.addLink id = some t' := by
  rintro s rfl rfl
  refine Ensures.perform ?_
  intro ch r s' he
  obtain ⟨t', hadd, heq⟩ := Option.map_eq_some_iff.mp he
  obtain ⟨_, rfl⟩ := Prod.mk.inj heq
  exact ⟨rfl, hadd⟩

lemma removeLink (id : NodeId) :
    Effect P n ns t (Prog.perform (FsInstr.removeLink (σ := PathNodeFs.sig P) id))
      fun _ ns' t' => ns' = ns ∧ t' = t.removeLink id := by
  rintro s rfl rfl
  refine Ensures.perform ?_
  intro ch r s' he
  obtain ⟨_, rfl⟩ := Prod.mk.inj (Option.some.inj he)
  exact ⟨rfl, rfl⟩

lemma reparent (id newParent : NodeId) :
    Effect P n ns t (Prog.perform (FsInstr.reparent (σ := PathNodeFs.sig P) id newParent))
      fun _ ns' t' => ns' = ns ∧ t' = t.reparent id newParent := by
  rintro s rfl rfl
  refine Ensures.perform ?_
  intro ch r s' he
  obtain ⟨_, rfl⟩ := Prod.mk.inj (Option.some.inj he)
  exact ⟨rfl, rfl⟩

/-! ### Functions of the adapter -/

/-- A callback under a read guard does what its body does. -/
lemma reading {body : PathNodeFs.Callback P α} {Q : α → Namespace → PathTable P → Prop}
    (h : Effect P n ns t body Q) : Effect P n ns t (PathNodeFs.reading body) Q := by
  refine readLock.bind ?_
  rintro _ _ _ ⟨rfl, rfl⟩
  refine h.bind ?_
  intro a ns' t' ha
  refine readUnlock.bind ?_
  rintro _ _ _ ⟨rfl, rfl⟩
  exact ret ha

/-- A callback under the write guard does what its body does. -/
lemma writing {body : PathNodeFs.Callback P α} {Q : α → Namespace → PathTable P → Prop}
    (h : Effect P n ns t body Q) : Effect P n ns t (PathNodeFs.writing body) Q := by
  refine writeLock.bind ?_
  rintro _ _ _ ⟨rfl, rfl⟩
  refine h.bind ?_
  intro a ns' t' ha
  refine writeUnlock.bind ?_
  rintro _ _ _ ⟨rfl, rfl⟩
  exact ret ha

/-- `self.path(id)?` fails or goes on with the path. -/
lemma withPathOf {id : NodeId} {next : Path → PathNodeFs.Callback P (Fallible α)}
    {Q : Fallible α → Namespace → PathTable P → Prop} (hfail : Q (fail .ENOENT) ns t)
    (h : ∀ p, ns.pathFor id = some (some p) → Effect P n ns t (next p) Q) :
    Effect P n ns t (PathNodeFs.withPathOf id next) Q := by
  refine (pathFor id).bind ?_
  rintro r _ _ ⟨hp, rfl, rfl⟩
  cases r with
  | none => exact ret hfail
  | some p => exact h p hp

/-- A call of the inner filesystem whose success is passed on. -/
lemma innerThen {p : PathNodeFs.Callback P (Fallible α)}
    {next : α → PathNodeFs.Callback P (Fallible β)}
    {Q : Fallible β → Namespace → PathTable P → Prop}
    (hp : Effect P n ns t p fun _ ns' t' => ns' = ns ∧ t' = t) (hfail : ∀ e, Q (.error e) ns t)
    (h : ∀ a, Effect P n ns t (next a) Q) :
    Effect P n ns t (p >>= fun r => PathNodeFs.onOk r next) Q := by
  refine hp.bind ?_
  rintro r _ _ ⟨rfl, rfl⟩
  cases r with
  | error e => exact ret (hfail e)
  | ok a => exact h a

/-- What `Namespace::insert` does to the names and the inode table: it finds the node of a bound
name, or makes a new node under the next key and binds the name to it. -/
inductive Inserted (ns : Namespace) (t : PathTable P) (d : Dentry) (parent : NodeId) :
    NodeId × Bool → Namespace → PathTable P → Prop where
  | found {id : NodeId} (h : ns.find d = some id) : Inserted ns t d parent (id, false) ns t
  | made {id : NodeId} {key : ℕ} {ns₁ : Namespace} {t' : PathTable P} (h : ns.find d = none)
      (hkey : ns.takeKey = some (key, ns₁))
      (hins : t.insert (⟨key⟩ : PathNode) parent = some (id, t')) :
      Inserted ns t d parent (id, true) (ns₁.record key id d) t'

/-- `Namespace::insert`. -/
lemma insert (parent : NodeId) (name : Name) :
    Effect P n ns t (PathNodeFs.insert parent name) (Inserted ns t ⟨parent, name⟩ parent) := by
  refine nsLock.bind ?_
  rintro _ _ _ ⟨rfl, rfl⟩
  refine (known _).bind ?_
  rintro r _ _ ⟨hr, rfl, rfl⟩
  cases r with
  | some id =>
    refine nsUnlock.bind ?_
    rintro _ _ _ ⟨rfl, rfl⟩
    exact ret (.found hr.symm)
  | none =>
    refine takeKey.bind ?_
    rintro key ns₁ _ ⟨hkey, rfl⟩
    refine (insertNode _ parent).bind ?_
    rintro id _ t' ⟨rfl, hins⟩
    refine (record key id _).bind ?_
    rintro _ _ _ ⟨rfl, rfl⟩
    refine nsUnlock.bind ?_
    rintro _ _ _ ⟨rfl, rfl⟩
    exact ret (.made hr.symm hkey hins)

/-- `add_node`. -/
lemma addNode (parent : NodeId) (name : Name) :
    Effect P n ns t (PathNodeFs.addNode parent name)
      fun id ns' t' => ∃ new, Inserted ns t ⟨parent, name⟩ parent (id, new) ns' t' := by
  refine (insert parent name).bind ?_
  rintro ⟨id, new⟩ ns' t' h
  exact ret ⟨new, h⟩

/-- Taking the link of a removed name. -/
lemma removeLinkOf (removed : Option NodeId) :
    Effect P n ns t (PathNodeFs.removeLinkOf removed)
      fun _ ns' t' => ns' = ns ∧ t' = removed.elim t t.removeLink := by
  cases removed with
  | none => exact ret ⟨rfl, rfl⟩
  | some id => exact removeLink id

/-- `rollback_dentry` and the end of `remove_entry`. -/
lemma removeDentry (d : Dentry) :
    Effect P n ns t (PathNodeFs.removeDentry d)
      fun _ ns' t' => ns' = (ns.remove d).2 ∧ t' = (ns.find d).elim t t.removeLink := by
  refine nsLock.bind ?_
  rintro _ _ _ ⟨rfl, rfl⟩
  refine (remove d).bind ?_
  rintro removed _ _ ⟨rfl, rfl, rfl⟩
  refine (removeLinkOf _).bind ?_
  rintro _ _ _ ⟨rfl, rfl⟩
  refine nsUnlock.mono ?_
  rintro _ _ _ ⟨rfl, rfl⟩
  exact ⟨rfl, rfl⟩

end Effect

end TypedFuse
