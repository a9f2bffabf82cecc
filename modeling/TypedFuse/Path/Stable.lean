import TypedFuse.Conc.Trace
import TypedFuse.Core.Reclaim
import TypedFuse.Path.Enumeration
import TypedFuse.Path.PathSample

/-!
# The node of a bound name

As long as a name stays bound, its node is not reclaimed, and every request that looks the name up
gets this node.  The first is an invariant of the guards: a name has a link.  The second needs to
know what a request did before it was answered; `Resolves` and `ReadsGeneration` pick the steps of
a request in which it gets a node for a name from `Namespace::insert`, and reads the generation
that it puts into its reply.
-/

namespace TypedFuse

open Conc Conc.Service NodeTable TypedFuse.Runtime

variable {P : PathFilesystem} {n : ℕ} {α β D τ : Type}

/-- A step of a request to the adapter. -/
abbrev PathEvent (P : PathFilesystem) : Type :=
  Event (service (pathNodeFs P))

/-- `Namespace::insert` has got the node `i` for the name: it was bound, or it is now. -/
inductive Resolves (d : Dentry) (i : NodeId) : PathEvent P → Prop where
  | found (n : ℕ) : Resolves d i ⟨n, PathInstr.rt (.known d), some i⟩
  | made (n key : ℕ) : Resolves d i ⟨n, PathInstr.rt (.record key i d), ()⟩

/-- The generation of a node is read for a reply. -/
inductive ReadsGeneration (i g : ℕ) : PathEvent P → Prop where
  | grant (n : ℕ) : ReadsGeneration i g ⟨n, .grant i, some g⟩
  | entry (n : ℕ) : ReadsGeneration i g ⟨n, .plusEntry i, some g⟩

/-- One of the steps resolves the name. -/
def Shows (d : Dentry) (i : NodeId) (es : List (PathEvent P)) : Prop :=
  ∃ e ∈ es, Resolves d i e

/-- One of the steps resolves the name, and a later one reads the generation, if there is one in the
reply. -/
def Obtained (d : Dentry) (i : NodeId) (gen : Option ℕ) (es : List (PathEvent P)) : Prop :=
  ∃ es₁ e es₂, es = es₁ ++ e :: es₂ ∧ Resolves d i e ∧
    ∀ g, gen = some g → ∃ e' ∈ es₂, ReadsGeneration i g e'

section Steps

variable {d : Dentry} {i : NodeId} {gen : Option ℕ} {es : List (PathEvent P)}

lemma Shows.head {e : PathEvent P} (h : Resolves d i e) : Shows d i (e :: es) :=
  ⟨e, List.mem_cons_self, h⟩

lemma Shows.cons (e : PathEvent P) (h : Shows d i es) : Shows d i (e :: es) := by
  obtain ⟨e', he', hr⟩ := h
  exact ⟨e', List.mem_cons_of_mem e he', hr⟩

lemma Shows.append (h : Shows d i es) (es₁ es₂ : List (PathEvent P)) :
    Shows d i (es₁ ++ es ++ es₂) := by
  obtain ⟨e, he, hr⟩ := h
  exact ⟨e, by simp [he], hr⟩

lemma Shows.obtained (h : Shows d i es) : Obtained d i none es := by
  obtain ⟨e, he, hr⟩ := h
  obtain ⟨es₁, es₂, rfl⟩ := List.append_of_mem he
  exact ⟨es₁, e, es₂, rfl, hr, fun g hg => nomatch hg⟩

/-- The name is resolved first, then the generation is read. -/
lemma Shows.then (h : Shows d i es) {es' : List (PathEvent P)} {g : ℕ}
    (h' : ∃ e' ∈ es', ReadsGeneration i g e') : Obtained d i (some g) (es ++ es') := by
  obtain ⟨e, he, hr⟩ := h
  obtain ⟨e', he', hg⟩ := h'
  obtain ⟨es₁, es₂, rfl⟩ := List.append_of_mem he
  refine ⟨es₁, e, es₂ ++ es', by simp, hr, ?_⟩
  intro g' hg'
  obtain rfl := Option.some.inj hg'
  exact ⟨e', by simp [he'], hg⟩

lemma Obtained.append (h : Obtained d i gen es) (es₁ es₂ : List (PathEvent P)) :
    Obtained d i gen (es₁ ++ es ++ es₂) := by
  obtain ⟨l₁, e, l₂, rfl, hr, hgen⟩ := h
  refine ⟨es₁ ++ l₁, e, l₂ ++ es₂, by simp, hr, ?_⟩
  intro g hg
  obtain ⟨e', he', hread⟩ := hgen g hg
  exact ⟨e', by simp [he'], hread⟩

end Steps

/-! ## What callbacks have done -/

/-- What a callback has done when it returns. -/
def Sees (n : ℕ) (p : PathNodeFs.Callback P α) (R : α → List (PathEvent P) → Prop) : Prop :=
  Reports (S := service (pathNodeFs P)) n (call (σ := PathNodeFs.sig P) p) R

namespace Sees

lemma ret {a : α} {R : α → List (PathEvent P) → Prop} (h : R a []) :
    Sees n (.ret a : PathNodeFs.Callback P α) R :=
  Reports.ret h

lemma any (p : PathNodeFs.Callback P α) : Sees n p fun _ _ => True :=
  Reports.any _

lemma mono {p : PathNodeFs.Callback P α} {R R' : α → List (PathEvent P) → Prop}
    (h : Sees n p R) (hR : ∀ a es, R a es → R' a es) : Sees n p R' :=
  Reports.mono h hR

lemma step {i : FsInstr (PathNodeFs.sig P)} {f : i.Resp → PathNodeFs.Callback P α}
    {R : α → List (PathEvent P) → Prop}
    (hf : ∀ r : i.Resp, Sees n (f r) fun a es => R a (⟨n, .fs i, r⟩ :: es)) :
    Sees n (Prog.perform i >>= f) R := by
  intro es a hplay
  obtain ⟨r, es', rfl, hrest⟩ := Plays.of_act hplay
  exact hf r es' a hrest

lemma bind {p : PathNodeFs.Callback P α} {f : α → PathNodeFs.Callback P β}
    {R : α → List (PathEvent P) → Prop} {R' : β → List (PathEvent P) → Prop}
    (h : Sees n p R) (hf : ∀ a es, R a es → Sees n (f a) fun b es' => R' b (es ++ es')) :
    Sees n (p >>= f) R' := by
  unfold Sees
  rw [call_bind]
  exact Reports.bind h hf

/-- `Namespace::insert` resolves its name. -/
lemma insert (parent : NodeId) (name : Name) :
    Sees n (PathNodeFs.insert (P := P) parent name) fun r es =>
      Shows ⟨parent, name⟩ r.1 es := by
  refine step fun _ => step fun r => ?_
  cases r with
  | some id => exact step fun _ => ret (.cons _ (.head (.found n)))
  | none =>
    refine step fun key => step fun id => step fun _ => step fun _ => ret ?_
    exact .cons _ (.cons _ (.cons _ (.cons _ (.head (.made n key)))))

lemma addNode (parent : NodeId) (name : Name) :
    Sees n (PathNodeFs.addNode (P := P) parent name) fun id es =>
      Shows ⟨parent, name⟩ id es := by
  refine (insert parent name).bind ?_
  intro r es h
  refine ret ?_
  rw [List.append_nil]
  exact h

/-- `lookup` returns a node that it has resolved the name to. -/
lemma lookup (parent : NodeId) (name : Name) (caller : Caller) :
    Sees n (PathNodeFs.lookup (P := P) parent name caller) fun r es =>
      ∀ id, r = .ok (some id) → Shows ⟨parent, name⟩ id es := by
  refine step fun _ => Sees.bind
    (R := fun r es => ∀ id, r = .ok (some id) → Shows ⟨parent, name⟩ id es) ?_ ?_
  · refine step fun path => ?_
    cases path with
    | none => exact ret fun id h => nomatch h
    | some path =>
      refine step fun found => ?_
      cases found with
      | error e => exact ret fun id h => nomatch h
      | ok attr =>
        cases attr with
        | none => exact ret fun id h => nomatch h
        | some attr =>
          refine (addNode parent name).bind ?_
          intro id es h
          refine ret ?_
          intro id' hid
          obtain rfl : id = id' := by
            injection hid with hid
            exact Option.some.inj hid
          exact h.append [_, _] []
  · intro r es h
    refine step fun _ => ret ?_
    intro id hid
    exact (h id hid).append [_] [_]

/-- `enumerate` resolves the emitted name, unless it is a dot. -/
lemma enumerate (this parent : NodeId) (name : Name) :
    Sees n (PathNodeFs.enumerate (P := P) this parent name) fun r es =>
      ¬ name.isDots → Shows ⟨this, name⟩ r.1 es := by
  unfold PathNodeFs.enumerate
  split
  · next hdot => exact ret fun h => absurd (Or.inl hdot) h
  · split
    · next hdots => exact ret fun h => absurd (Or.inr hdots) h
    · refine (insert this name).bind ?_
      intro r es h
      refine ret fun _ => ?_
      rw [List.append_nil]
      exact h

end Sees

/-! ## What requests have done -/

/-- What an answer to a request says of a name: the number of its node, and its generation if the
reply has one. -/
def obtained (req : Request) (a : Fallible Reply) (d : Dentry) : List (ℕ × Option ℕ) :=
  match req, a with
  | .lookup parent name _, .ok (.entry e) =>
    if d = ⟨parent, name⟩ then [(e.reply.ino, some e.reply.generation)] else []
  | .readdir ino _ _ _ _, .ok (.listed offered) =>
    (offered.filter fun e => ¬ e.name.isDots ∧ d = ⟨ino, e.name⟩).map fun e => (e.id, none)
  | .readdirplus ino _ _ _ _, .ok (.retained _ offered) =>
    (offered.filter fun e => ¬ e.name.isDots ∧ d = ⟨ino, e.name⟩).map fun e =>
      (e.entry.ino, some e.entry.generation)
  | _, _ => []

/-- A sink whose state stands for entries: the callbacks leave it alone, and an entry that it is
offered stands for a node that was resolved before. -/
structure SinkSees (n : ℕ) (this : NodeId)
    (h : (i : DirInstr (PathNodeFs.sig P) D) → τ → RtProg (PathNodeFs.sig P) (i.Resp × τ))
    (I : τ → List (PathEvent P) → Prop) : Prop where
  fs : ∀ i acc, h (.fs i) acc = Runtime.sect (.fs i) >>= fun r => .ret (r, acc)
  more : ∀ {acc es}, I acc es → ∀ es', I acc (es ++ es')
  add : ∀ {acc es name id data nextOffset}, I acc es →
    (¬ name.isDots → Shows ⟨this, name⟩ id es) →
    Reports (S := service (pathNodeFs P)) n (h (.add name id data nextOffset) acc)
      fun r es' => I r.2 (es ++ es')

section Reporting

variable {h : (i : DirInstr (PathNodeFs.sig P) D) → τ →
    RtProg (PathNodeFs.sig P) (i.Resp × τ)}
  {I : τ → List (PathEvent P) → Prop} {this parent : NodeId}

/-- A callback inside a directory callback. -/
lemma reports_inDir (hok : SinkSees n this h I) {p : PathNodeFs.Callback P α}
    {f : α → PathNodeFs.DirCallback P D β} {acc : τ} {R : α → List (PathEvent P) → Prop}
    {R' : β × τ → List (PathEvent P) → Prop} (hp : Sees n p R)
    (hf : ∀ a es, R a es → Reports (S := service (pathNodeFs P)) n ((f a).handle h acc)
      fun b es' => R' b (es ++ es')) :
    Reports (S := service (pathNodeFs P)) n ((FsProg.inDir p >>= f).handle h acc) R' := by
  refine Eq.mpr (congrArg (fun q => Reports (S := service (pathNodeFs P)) n q R')
    (handle_inDir hok.fs p f acc)) ?_
  exact Reports.bind hp hf

/-- Every entry of a listing that the sink has seen stands for a node that was resolved. -/
lemma reports_emitAll (hok : SinkSees n this h I) (listing : Listing D) (ds : List Dentry)
    (acc : τ) (es : List (PathEvent P)) (hI : I acc es) :
    Reports (S := service (pathNodeFs P)) n
      ((PathNodeFs.emitAll this parent listing ds).handle h acc) fun r es' =>
        I r.2 (es ++ es') := by
  induction listing generalizing ds acc es with
  | finish result =>
    refine Reports.ret ?_
    rw [List.append_nil]
    exact hI
  | emit name data nextOffset next ih =>
    refine reports_inDir hok (Sees.enumerate this parent name) ?_
    rintro ⟨id, dentry⟩ es₁ hshows
    have hshown : ¬ name.isDots → Shows ⟨this, name⟩ id (es ++ es₁) := by
      intro hdots
      have happend := (hshows hdots).append es []
      rw [List.append_nil] at happend
      exact happend
    refine Reports.bind (hok.add (hok.more hI es₁) hshown) ?_
    rintro ⟨accepted, acc'⟩ es₂ hacc
    -- the rest of the listing, whatever is done before it
    have hrest : ∀ ds', Reports (S := service (pathNodeFs P)) n
        ((PathNodeFs.emitAll this parent (next accepted) ds').handle h acc')
        fun r es' => I r.2 (es ++ (es₁ ++ (es₂ ++ es'))) := by
      intro ds'
      refine (ih accepted ds' acc' _ hacc).mono ?_
      intro r es' hr
      simp only [List.append_assoc] at hr
      exact hr
    cases dentry with
    | none => exact hrest ds
    | some d =>
      cases accepted with
      | true => exact hrest (ds ++ [d])
      | false =>
        refine reports_inDir hok (Sees.any (PathNodeFs.removeDentry d)) ?_
        intro _ es₃ _
        refine (ih false ds acc' _ (hok.more hacc es₃)).mono ?_
        intro r es' hr
        simp only [List.append_assoc] at hr
        exact hr

/-- `readdir` and `readdirplus` of the adapter. -/
lemma reports_listDir (hok : SinkSees n this h I) (node : PathNode)
    (list : Path → PathNodeFs.Callback P (Listing D)) (acc : τ) (hI : I acc []) :
    Reports (S := service (pathNodeFs P)) n
      ((PathNodeFs.listDir node this parent list).handle h acc)
      fun r es => I r.2 es := by
  refine reports_inDir hok (Sees.any (PathNodeFs.own .readLock)) ?_
  intro _ es₁ _
  refine reports_inDir hok (Sees.any (PathNodeFs.nodePath node)) ?_
  intro path es₂ _
  cases path with
  | none =>
    refine reports_inDir hok (Sees.any (PathNodeFs.own .readUnlock)) ?_
    intro _ es₃ _
    exact Reports.ret (hok.more hI _)
  | some path =>
    refine reports_inDir hok (Sees.any (list path)) ?_
    intro listing es₃ _
    have hemit : Reports (S := service (pathNodeFs P)) n
        ((PathNodeFs.emitAll this parent listing []).handle h acc)
        fun r es' => I r.2 (es₁ ++ es₂ ++ es₃ ++ es') :=
      reports_emitAll hok listing [] acc _ (hok.more hI (es₁ ++ es₂ ++ es₃))
    refine Eq.mpr (congrArg (fun q => Reports (S := service (pathNodeFs P)) n q _)
      (Prog.handle_bind h _ _ acc)) (Reports.bind hemit ?_)
    rintro ⟨⟨result, ds⟩, acc'⟩ es₄ hacc
    refine reports_inDir hok (Sees.any (PathNodeFs.undo result ds)) ?_
    intro _ es₅ _
    refine reports_inDir hok (Sees.any (PathNodeFs.own .readUnlock)) ?_
    intro _ es₆ _
    refine Reports.ret ?_
    have hend := hok.more hacc (es₅ ++ es₆)
    simp only [List.append_assoc, List.append_nil] at hend ⊢
    exact hend

end Reporting

/-- What is known of an answer stays known when more steps are added. -/
def Lasting (R : α → List (PathEvent P) → Prop) : Prop :=
  ∀ a es es₁ es₂, R a es → R a (es₁ ++ es ++ es₂)

lemma reports_withNode {ino : ℕ} {R : Fallible α → List (PathEvent P) → Prop}
    {body : NodeRef (pathNodeFs P).Node → RtProg (pathNodeFs P).toFsSig (Fallible α)}
    (hR : Lasting R) (hfail : ∀ e es, R (.error e) es)
    (hbody : ∀ ref, Reports (S := service (pathNodeFs P)) n (body ref) R) :
    Reports (S := service (pathNodeFs P)) n (withNode ino body) R := by
  refine Reports.step fun r => ?_
  cases r with
  | none => exact Reports.ret (hfail _ _)
  | some ref =>
    refine Reports.bind (hbody ref) ?_
    intro a es ha
    exact Reports.step fun _ => Reports.ret (hR a es [_] [_] ha)

lemma reports_withHandle {k : HandleKind} {ino fh : ℕ}
    {R : Fallible α → List (PathEvent P) → Prop}
    {body : (pathNodeFs P).Payload k → RtProg (pathNodeFs P).toFsSig (Fallible α)}
    (hR : Lasting R) (hfail : ∀ e es, R (.error e) es)
    (hbody : ∀ payload, Reports (S := service (pathNodeFs P)) n (body payload) R) :
    Reports (S := service (pathNodeFs P)) n (withHandle k ino fh body) R := by
  refine Reports.step fun r => ?_
  cases r with
  | none => exact Reports.ret (hfail _ _)
  | some arc =>
    refine Reports.ite (fun _ => ?_) fun _ => Reports.step fun _ => Reports.ret (hfail _ _)
    refine Reports.step fun granted => ?_
    refine Reports.ite (fun _ => ?_) fun _ => Reports.step fun _ => Reports.ret (hfail _ _)
    refine Reports.step fun _ => Reports.step fun payload => Reports.bind (hbody payload) ?_
    intro a es ha
    exact Reports.step fun _ => Reports.step fun _ =>
      Reports.ret (hR a es [_, _, _, _] [_, _] ha)

/-- The entries of an answer are nodes that were resolved. -/
def ObtainsAll (req : Request) (a : Fallible Reply) (es : List (PathEvent P)) : Prop :=
  ∀ d x, x ∈ obtained req a d → Obtained d x.1 x.2 es

/-- `entry_for` reads the generation. -/
lemma reports_entryFor (id : NodeId) (caller : Caller) :
    Reports (S := service (pathNodeFs P)) n (entryFor (pathNodeFs P) id caller) fun r es =>
      ∀ e, r = .ok e →
        e.reply.ino = id ∧ ∃ e' ∈ es, ReadsGeneration id e.reply.generation e' := by
  refine Reports.step fun denoted => Reports.step fun r => ?_
  cases r with
  | none => exact Reports.ret fun e h => nomatch h
  | some ref =>
    refine Reports.bind (Reports.any _) ?_
    intro attr es _
    cases attr with
    | error err => exact Reports.step fun _ => Reports.ret fun e h => nomatch h
    | ok attr =>
      refine Reports.step fun g => ?_
      cases g with
      | none => exact Reports.step fun _ => Reports.ret fun e h => nomatch h
      | some g =>
        refine Reports.step fun _ => Reports.ret ?_
        intro e he
        obtain rfl := Except.ok.inj he
        refine ⟨rfl, _, ?_, .grant n⟩
        exact List.mem_cons_of_mem _ (List.mem_cons_of_mem _
          (List.mem_append_right es List.mem_cons_self))

lemma reports_lookup (parent : NodeId) (name : Name) (caller : Caller) :
    Reports (S := service (pathNodeFs P)) n (Runtime.lookup (pathNodeFs P) parent name caller)
      fun r es => ∀ e, r = .ok (some e) →
        Obtained ⟨parent, name⟩ e.reply.ino (some e.reply.generation) es := by
  refine Reports.bind (Sees.lookup parent name caller) ?_
  intro r es hshows
  cases r with
  | error err => exact Reports.ret fun e h => nomatch h
  | ok found =>
    cases found with
    | none => exact Reports.ret fun e h => nomatch h
    | some id =>
      refine Reports.bind (reports_entryFor id caller) ?_
      intro entry es' hentry
      refine Reports.ret ?_
      intro e he
      cases entry with
      | error err => cases he
      | ok e' =>
        obtain rfl : e' = e := Option.some.inj (Except.ok.inj he)
        obtain ⟨hino, hread⟩ := hentry e' rfl
        rw [List.append_nil, hino]
        exact (hshows id rfl).then hread

/-- The entries that a listing has offered to its sink. -/
def Offered {E : Type} (this : NodeId) (name : E → Name) (entry : E → ℕ × Option ℕ)
    (offered : List E) (es : List (PathEvent P)) : Prop :=
  ∀ e ∈ offered, ¬ (name e).isDots → Obtained ⟨this, name e⟩ (entry e).1 (entry e).2 es

lemma Offered.append {E : Type} {this : NodeId} {name : E → Name}
    {entry : E → ℕ × Option ℕ} {offered : List E} {es : List (PathEvent P)}
    (h : Offered this name entry offered es) (es₁ es₂ : List (PathEvent P)) :
    Offered this name entry offered (es₁ ++ es ++ es₂) :=
  fun e he hdots => (h e he hdots).append es₁ es₂

/-- A listing within the scopes of its directory and its handle. -/
lemma reports_scopes {ino fh : ℕ} {R : Fallible α → List (PathEvent P) → Prop}
    (hR : Lasting R) (hfail : ∀ e es, R (.error e) es)
    {body : NodeRef (pathNodeFs P).Node → NodeId → (pathNodeFs P).Payload .dir →
      RtProg (pathNodeFs P).toFsSig (Fallible α)}
    {scope : NodeRef (pathNodeFs P).Node → Option NodeId →
      RtProg (pathNodeFs P).toFsSig (Fallible α)}
    (hnone : ∀ node, scope node none = .ret (fail .ENOENT))
    (hsome : ∀ node parent, scope node (some parent) = withHandle .dir ino fh (body node parent))
    (hbody : ∀ node parent payload,
      Reports (S := service (pathNodeFs P)) n (body node parent payload) R) :
    Reports (S := service (pathNodeFs P)) n
      (withNode ino fun node => Runtime.sect (.parentOf ino) >>= scope node) R := by
  refine reports_withNode hR hfail fun node => Reports.step fun parent => ?_
  cases parent with
  | none =>
    rw [hnone]
    exact Reports.ret (hfail _ _)
  | some parent =>
    rw [hsome]
    refine (reports_withHandle hR hfail (hbody node parent)).mono ?_
    intro a es ha
    have hmore := hR a es [⟨n, .parentOf ino, some parent⟩] [] ha
    rw [List.append_nil] at hmore
    exact hmore

lemma lasting_offered {E A : Type} {this : NodeId} {name : E → Name}
    {entry : E → ℕ × Option ℕ} (list : A → List E) :
    Lasting (P := P) fun (r : Fallible A) es =>
      ∀ a, r = .ok a → Offered this name entry (list a) es :=
  fun _ _ es₁ es₂ h a ha => (h a ha).append es₁ es₂

/-- The sink of `readdir`. -/
lemma sinkSees_readdir (ino : ℕ) (sink : Sink DirEntry)
    {h : (i : DirInstr (PathNodeFs.sig P) FileKind) → List DirEntry →
      RtProg (PathNodeFs.sig P) (i.Resp × List DirEntry)}
    (hfs : ∀ i acc, h (.fs i) acc = Runtime.sect (.fs i) >>= fun r => .ret (r, acc))
    (hadd : ∀ name id kind nextOffset offered, h (.add name id kind nextOffset) offered =
      .ret (sink offered ⟨name, id, kind, nextOffset⟩, offered ++
        [⟨name, id, kind, nextOffset⟩])) :
    SinkSees n ino h fun offered es =>
      Offered ino DirEntry.name (fun e => (e.id, none)) offered es := by
  refine ⟨hfs, ?_, ?_⟩
  · intro offered es h es'
    exact h.append [] es'
  · intro offered es name id kind nextOffset h hshows
    rw [hadd]
    refine Reports.ret ?_
    rw [List.append_nil]
    intro e he hdots
    rcases List.mem_append.mp he with he | he
    · exact h e he hdots
    · obtain rfl := List.mem_singleton.mp he
      exact (hshows hdots).obtained

/-- The accounting sink of `readdirplus` reads the generation of every entry. -/
lemma sinkSees_readdirplus (ino : ℕ) (sink : Sink PlusEntry)
    {h : (i : DirInstr (PathNodeFs.sig P) NodeAttr) → Accounting →
      RtProg (PathNodeFs.sig P) (i.Resp × Accounting)}
    (hfs : ∀ i acc, h (.fs i) acc = Runtime.sect (.fs i) >>= fun r => .ret (r, acc))
    (hadd : ∀ name id attr nextOffset acc, h (.add name id attr nextOffset) acc =
      Accounting.add sink acc name id attr nextOffset) :
    SinkSees n ino h fun acc es =>
      Offered ino PlusEntry.name (fun e => (e.entry.ino, some e.entry.generation))
        acc.offered es := by
  refine ⟨hfs, ?_, ?_⟩
  · intro acc es h es'
    exact h.append [] es'
  · intro acc es name id attr nextOffset h hshows
    rw [hadd]
    refine Reports.step fun g => ?_
    cases g with
    | none => exact Reports.ret (h.append [] _)
    | some g =>
      have hnew : ∀ es', Offered ino PlusEntry.name
          (fun e => (e.entry.ino, some e.entry.generation))
          (acc.offered ++ [⟨name, ⟨id, g, attr⟩, nextOffset⟩])
          (es ++ (⟨n, .plusEntry id, some g⟩ :: es')) := by
        intro es' e he hdots
        rcases List.mem_append.mp he with he | he
        · exact (h.append [] _) e he hdots
        · obtain rfl := List.mem_singleton.mp he
          exact (hshows hdots).then ⟨_, List.mem_cons_self, .entry n⟩
      refine Reports.ite (fun _ => Reports.ite (fun _ => Reports.step fun r => ?_) fun _ => ?_)
        fun _ => ?_
      · cases r with
        | none => exact Reports.ret (hnew _)
        | some _ => exact Reports.ret (hnew _)
      · exact Reports.ret (hnew _)
      · exact Reports.ret (hnew _)

/-- `readdir` lists nodes that were resolved. -/
lemma reports_readdir (ino fh offset : ℕ) (sink : Sink DirEntry) (caller : Caller) :
    Reports (S := service (pathNodeFs P)) n
      (Runtime.readdir (pathNodeFs P) ino fh offset sink caller) fun r es =>
        ∀ offered, r = .ok offered →
          Offered ino DirEntry.name (fun e => (e.id, none)) offered es := by
  refine reports_scopes (lasting_offered id) (fun _ _ _ h => nomatch h) (fun _ => rfl)
    (fun _ _ => rfl) ?_
  intro node parent handle
  refine Reports.bind (reports_listDir (sinkSees_readdir ino sink (fun _ _ => rfl)
    fun _ _ _ _ _ => rfl) node.record.payload
    (fun p => PathNodeFs.inner (.readdir p handle offset caller)) [] fun e he => nomatch he) ?_
  rintro ⟨result, offered⟩ es h
  refine Reports.ret ?_
  intro offered' hr
  rw [List.append_nil]
  cases result with
  | error e => cases hr
  | ok u =>
    obtain rfl : offered = offered' := Except.ok.inj hr
    exact h

/-- `readdirplus` lists nodes that were resolved, with the generation that was read. -/
lemma reports_readdirplus (ino fh offset : ℕ) (sink : Sink PlusEntry) (caller : Caller) :
    Reports (S := service (pathNodeFs P)) n
      (Runtime.readdirplus (pathNodeFs P) ino fh offset sink caller) fun r es =>
        ∀ l, r = .ok l → Offered ino PlusEntry.name
          (fun e => (e.entry.ino, some e.entry.generation)) l.2 es := by
  refine reports_scopes (lasting_offered Prod.snd) (fun _ _ _ h => nomatch h) (fun _ => rfl)
    (fun _ _ => rfl) ?_
  intro node parent handle
  refine Reports.bind (reports_listDir (sinkSees_readdirplus ino sink (fun _ _ => rfl)
    fun _ _ _ _ _ => rfl) node.record.payload
    (fun p => PathNodeFs.inner (.readdirplus p handle offset caller)) {} fun e he => nomatch he) ?_
  rintro ⟨result, acc⟩ es h
  cases result with
  | ok u =>
    refine Reports.ret ?_
    intro l hl
    obtain rfl : (acc.accepted, acc.offered) = l := Except.ok.inj hl
    exact h.append [] []
  | error e =>
    cases e with
    | errno e =>
      refine Reports.bind (Reports.any _) ?_
      intro _ _ _
      exact Reports.ret fun l hl => nomatch hl
    | panic => exact Reports.step fun _ => Reports.ret fun l hl => nomatch hl

/-- The program of every request obtains the entries of its answer. -/
lemma reports_serve (req : Request) :
    Reports (S := service (pathNodeFs P)) n (serve (pathNodeFs P) req) (ObtainsAll req) := by
  cases req with
  | lookup parent name caller =>
    refine Reports.bind (reports_lookup parent name caller) ?_
    intro r es h
    refine Reports.ret ?_
    rw [List.append_nil]
    intro d x hx
    cases r with
    | error e => cases hx
    | ok found =>
      cases found with
      | none => cases hx
      | some e =>
        change x ∈ ite _ _ _ at hx
        split at hx
        · next hd =>
          obtain rfl := List.mem_singleton.mp hx
          subst hd
          exact h e rfl
        · cases hx
  | readdir ino fh offset sink caller =>
    refine Reports.bind (reports_readdir ino fh offset sink caller) ?_
    intro r es h
    refine Reports.ret ?_
    rw [List.append_nil]
    intro d x hx
    cases r with
    | error e => cases hx
    | ok offered =>
      obtain ⟨e, he, rfl⟩ := List.mem_map.mp hx
      obtain ⟨hmem, hd⟩ := List.mem_filter.mp he
      obtain ⟨hdots, rfl⟩ := of_decide_eq_true hd
      exact h offered rfl e hmem hdots
  | readdirplus ino fh offset sink caller =>
    refine Reports.bind (reports_readdirplus ino fh offset sink caller) ?_
    intro r es h
    refine Reports.ret ?_
    rw [List.append_nil]
    intro d x hx
    cases r with
    | error e => cases hx
    | ok l =>
      obtain ⟨e, he, rfl⟩ := List.mem_map.mp hx
      obtain ⟨hmem, hd⟩ := List.mem_filter.mp he
      obtain ⟨hdots, rfl⟩ := of_decide_eq_true hd
      exact h l rfl e hmem hdots
  | _ =>
    refine (Reports.any _).mono ?_
    intro a es _ d x hx
    cases hx

/-! ## While a name is bound -/

/-- The name is bound to the node after the step. -/
def StaysBound (d : Dentry) (id : NodeId) (c : Config (service (pathNodeFs P)))
    (a : Action (service (pathNodeFs P))) : Prop :=
  ∀ c', c.next a = some c' → c'.state.fs.ns.find d = some id

/-- A bound node is live. -/
lemma live_of_bound {c : Config (service (pathNodeFs P))}
    (hr : Run anyAction (start (pathNodeFs P)) c) {d : Dentry} {id : NodeId}
    (hd : c.state.fs.ns.find d = some id) : ∃ sl, c.state.table.slot id = some sl := by
  have hholds : (pathLogic P False).Holds c := path_holds (fun h => h.elim) hr
  obtain ⟨T, hinv⟩ := hholds.inv
  have hinv' : PathInv False c.state (pathView T) := hinv
  exact slot_of_count_pos (hinv'.linked.links_pos hd)

lemma StaysBound.live {c₀ c : Config (service (pathNodeFs P))} {d : Dentry} {id : NodeId}
    {es : List (PathEvent P)} (hr : Run anyAction (start (pathNodeFs P)) c₀)
    (h : Traced (StaysBound d id) c₀ c es) : Traced (StaysLive id) c₀ c es := by
  refine h.mono_next ?_
  intro c es a c' htr ha hn c'' hn'
  exact live_of_bound (.tail a (hr.trans htr.run.any) trivial hn') (ha c'' hn')

/-- While the name is bound, it is resolved to its node. -/
lemma resolves_bound {c₀ c : Config (service (pathNodeFs P))} {d : Dentry} {id i : NodeId}
    {es : List (PathEvent P)} (h : Traced (StaysBound d id) c₀ c es) {e : PathEvent P}
    (he : e ∈ es) (hr : Resolves d i e) : i = id := by
  obtain ⟨es₁, es₂, hes⟩ := List.append_of_mem he
  obtain ⟨c₁, m, req, k, ch, s, htr, ha, ht, hexec, _⟩ := h.fired hes
  have hbound : s.fs.ns.find d = some id := ha _ (next_of_exec ht hexec)
  cases hr with
  | found n =>
    obtain ⟨ch', f, hf, rfl⟩ := exec_own (P := P) hexec
    obtain ⟨hans, rfl⟩ := Prod.mk.inj (Option.some.inj hf)
    exact Option.some.inj (hans.symm.trans hbound)
  | made n key =>
    obtain ⟨ch', f, hf, rfl⟩ := exec_own (P := P) hexec
    obtain ⟨_, rfl⟩ := Prod.mk.inj (Option.some.inj hf)
    have hself : (c₁.state.fs.ns.record key i d).find d = some i :=
      (BTreeMap.lookup_insert_ite c₁.state.fs.ns.byName d d i).trans (if_pos rfl)
    exact Option.some.inj (hself.symm.trans hbound)

/-- The generation that is read for a node is that of its slot. -/
lemma reads_generation {s s' : RtState (PathNodeFs.sig P)} {e : PathEvent P}
    {ch : Option P.Choice} {i : NodeId} {g : ℕ} (h : ReadsGeneration i g e)
    (he : (service (pathNodeFs P)).exec e.thread e.instr ch s = some (e.resp, s')) :
    ∃ sl, s.table.slot i = some sl ∧ sl.generation = g := by
  cases h with
  | grant n =>
    obtain ⟨⟨o, t'⟩, hadd, heq⟩ := Option.map_eq_some_iff.mp he
    obtain ⟨rfl, _⟩ := Prod.mk.inj heq
    obtain ⟨⟨o', t₁⟩, hinc, heq'⟩ := Option.map_eq_some_iff.mp hadd
    obtain ⟨hgen, _⟩ := Prod.mk.inj heq'
    rcases incr_cases hinc with ⟨rfl, _, _⟩ | ⟨sl, rfl, hsl, _⟩
    · cases hgen
    · exact ⟨sl, hsl, Option.some.inj hgen⟩
  | entry n =>
    obtain ⟨hgen, _⟩ := Prod.mk.inj (Option.some.inj he)
    exact Option.map_eq_some_iff.mp hgen

/-- As long as a number stays live, only the generation of its node is read. -/
lemma generation_read {c₀ c : Config (service (pathNodeFs P))} {id : NodeId}
    {es : List (PathEvent P)} (hr : Run anyAction (start (pathNodeFs P)) c₀)
    (h : Traced (StaysLive id) c₀ c es) {e : PathEvent P} (he : e ∈ es) {g : ℕ}
    (hg : ReadsGeneration id g e) :
    ∃ sl, c.state.table.slot id = some sl ∧ sl.generation = g := by
  -- one more action leaves the node with its generation
  have hstep : ∀ {c c' : Config (service (pathNodeFs P))} {es : List (PathEvent P)}
      (a : Action (service (pathNodeFs P))), Traced (StaysLive id) c₀ c es →
      StaysLive id c a → c.next a = some c' →
      (∃ sl, c.state.table.slot id = some sl ∧ sl.generation = g) →
      ∃ sl, c'.state.table.slot id = some sl ∧ sl.generation = g := by
    rintro c c' es a htr ha hn ⟨sl, hsl, hgen⟩
    obtain ⟨sl', hsl', _, hgen'⟩ := same_node (hr.trans htr.run.any) hsl (.tail a .refl ha hn)
    exact ⟨sl', hsl', hgen'.trans hgen⟩
  induction h with
  | refl => cases he
  | issue req htr ha hn ih => exact hstep _ htr ha hn (ih he)
  | step ch htr ha ht hexec ih =>
    refine hstep _ htr ha (next_of_exec ht hexec) ?_
    rcases List.mem_append.mp he with he | he
    · exact ih he
    · obtain rfl := List.mem_singleton.mp he
      exact reads_generation hg hexec
  | answer n htr ha hn ih => exact hstep _ htr ha hn (ih he)

/-- While a name is bound, its node is not reclaimed and everybody who resolves the name gets it.
What a request makes of this is the same entry as long as it reads the generation before the node
is reclaimed. -/
theorem bound_name_stable {c₁ c₂ c₃ c₄ : Config (service (pathNodeFs P))}
    {es₁ es₂ es₃ es₄ : List (PathEvent P)} {d : Dentry} {id : NodeId}
    (h₁ : Traced anyAction (start (pathNodeFs P)) c₁ es₁)
    (h₂ : Traced (StaysBound d id) c₁ c₂ es₂) (hd : c₂.state.fs.ns.find d = some id)
    (h₃ : Traced (StaysLive id) c₂ c₃ es₃) (h₄ : Traced anyAction c₃ c₄ es₄) :
    ∃ sl₂, c₂.state.table.slot id = some sl₂ ∧
      (∀ c es es', Traced (StaysBound d id) c₁ c es → Traced (StaysBound d id) c c₂ es' →
        c.state.fs.ns.find d = some id →
        ∃ sl, c.state.table.slot id = some sl ∧ sl₂.record = sl.record ∧
          sl₂.generation = sl.generation) ∧
      (∀ e ∈ es₂, ∀ i, Resolves d i e → i = id) ∧
      ∀ n t req a, c₄.threads[n]? = some ⟨t, req, .done a⟩ →
        (∀ e ∈ es₁ ++ es₃ ++ es₄, e.thread = n → ∀ i, ¬ Resolves d i e) →
        ∀ x ∈ obtained req a d, x.1 = id ∧
          ((∀ e ∈ es₄, e.thread = n → ∀ g, ¬ ReadsGeneration id g e) →
            ∀ g, x.2 = some g → g = sl₂.generation) := by
  have hr₁ : Run anyAction (start (pathNodeFs P)) c₁ := h₁.run
  have hr₂ : Run anyAction (start (pathNodeFs P)) c₂ := hr₁.trans h₂.run.any
  obtain ⟨sl₂, hsl₂⟩ := live_of_bound hr₂ hd
  have hlive := StaysBound.live hr₁ h₂
  refine ⟨sl₂, hsl₂, ?_, fun e he i hi => resolves_bound h₂ he hi, ?_⟩
  · intro c es es' hc hc' hbound
    have hr : Run anyAction (start (pathNodeFs P)) c := hr₁.trans hc.run.any
    obtain ⟨sl, hsl⟩ := live_of_bound hr hbound
    obtain ⟨sl', hsl', hsame⟩ := same_node hr hsl (StaysBound.live hr hc').run
    obtain rfl : sl' = sl₂ := Option.some.inj (hsl'.symm.trans hsl₂)
    exact ⟨sl, hsl, hsame⟩
  · intro n t req a ht honly x hx
    have htr := ((h₁.trans h₂.any).trans h₃.any).trans h₄
    obtain ⟨l₁, e, l₂, hes, hres, hgen⟩ := htr.reported rfl (reports_serve req) ht d x hx
    have hmem : e ∈ eventsOf n (es₁ ++ es₂ ++ es₃ ++ es₄) := by
      rw [hes]
      simp
    obtain ⟨hmem, hthread⟩ := mem_eventsOf.mp hmem
    have hin : e ∈ es₂ := by
      by_contra hnot
      refine honly e ?_ hthread x.1 hres
      simp only [List.mem_append] at hmem ⊢
      tauto
    have hino : x.1 = id := resolves_bound h₂ hin hres
    refine ⟨hino, ?_⟩
    intro hbefore g hg
    obtain ⟨e', he', hread⟩ := hgen g hg
    rw [hino] at hread
    -- the generation is read after the name was resolved
    have hsplit : eventsOf n es₁ ++ eventsOf n (es₂ ++ es₃ ++ es₄) = l₁ ++ e :: l₂ := by
      rw [← eventsOf_append, ← hes]
      simp only [List.append_assoc]
    have hafter : e' ∈ eventsOf n (es₂ ++ es₃ ++ es₄) := by
      refine mem_of_after hsplit ?_ he'
      intro hfirst
      exact honly e (by simp [(mem_eventsOf.mp hfirst).1]) hthread x.1 hres
    obtain ⟨hafter, hthread'⟩ := mem_eventsOf.mp hafter
    have hread₂ : e' ∈ es₂ ++ es₃ := by
      rcases List.mem_append.mp hafter with hin' | hin'
      · exact hin'
      · exact absurd hread (hbefore e' hin' hthread' g)
    obtain ⟨sl₃, hsl₃, hg₃⟩ := generation_read hr₁ (hlive.trans h₃) hread₂ hread
    obtain ⟨sl, hsl, _, hsame⟩ := same_node hr₂ hsl₂ h₃.run
    obtain rfl : sl = sl₃ := Option.some.inj (hsl.symm.trans hsl₃)
    exact hg₃.symm.trans hsame

/-! ## Two lookups of one name -/

/-- The step does not resolve the name. -/
def Elsewhere (d : Dentry) (c : Config (service (pathNodeFs P))) :
    Action (service (pathNodeFs P)) → Prop
  | .step n _ => ∀ req i, c.At n req i →
    (i = PathInstr.rt (.known d) → c.state.fs.ns.find d = none) ∧
      ∀ key id, i ≠ PathInstr.rt (.record key id d)
  | _ => True

lemma not_resolves {c₀ c : Config (service (pathNodeFs P))} {d : Dentry}
    {es : List (PathEvent P)} (h : Traced (Elsewhere d) c₀ c es) {e : PathEvent P} (he : e ∈ es)
    (i : NodeId) : ¬ Resolves d i e := by
  intro hr
  obtain ⟨es₁, es₂, hes⟩ := List.append_of_mem he
  obtain ⟨c₁, m, req, k, ch, s, _, ha, ht, hexec, _⟩ := h.fired hes
  obtain ⟨hknown, hrecord⟩ := ha req e.instr ⟨_, k, ht⟩
  cases hr with
  | found n =>
    obtain ⟨ch', f, hf, rfl⟩ := exec_own (P := P) hexec
    obtain ⟨hans, _⟩ := Prod.mk.inj (Option.some.inj hf)
    exact nomatch hans.symm.trans (hknown rfl)
  | made n key => exact hrecord key i rfl

/-- The name that is looked up twice. -/
private def twice : Dentry := ⟨1, [98]⟩

/-- The check behind `Elsewhere`. -/
private def elsewhereCheck (c : Config (service PathSample.fs)) :
    Action (service PathSample.fs) → Bool
  | .step n _ =>
    match c.threads[n]? with
    | some ⟨_, _, .running (.act (.fs (.own i)) _)⟩ =>
      match (i : PathInstr PathSample.inner) with
      | .known d => d = twice → c.state.fs.ns.find d = none
      | .record _ _ d => d ≠ twice
      | _ => true
    | _ => true
  | _ => true

private lemma elsewhere_of_check (c : Config (service PathSample.fs))
    (a : Action (service PathSample.fs)) (h : elsewhereCheck c a = true) : Elsewhere twice c a := by
  cases a with
  | step n ch =>
    rintro req i ⟨m, k, ht⟩
    unfold elsewhereCheck at h
    constructor
    · rintro rfl
      simp only [ht] at h
      exact of_decide_eq_true h trivial
    · rintro key id rfl
      simp only [ht] at h
      exact of_decide_eq_true h rfl
  | issue req => trivial
  | answer n => trivial

/-- The check behind `StaysBound`. -/
private def boundCheck (c : Config (service PathSample.fs)) (a : Action (service PathSample.fs)) :
    Bool :=
  match c.next a with
  | some c' => c'.state.fs.ns.find twice = some 2
  | none => true

private lemma bound_of_check (c : Config (service PathSample.fs))
    (a : Action (service PathSample.fs)) (h : boundCheck c a = true) : StaysBound twice 2 c a := by
  intro c' hn
  unfold boundCheck at h
  simp only [hn] at h
  exact of_decide_eq_true h

/-- The first lookup is about to bind the name. -/
private def unbound : Config (service PathSample.fs) :=
  PathSample.thereafter (start PathSample.fs) elsewhereCheck
    (.issue (.lookup NodeId.ROOT [98] {}) :: PathSample.steps 0 7)

/-- The first lookup has been answered, and the second one has found the name. -/
private def lookedUp : Config (service PathSample.fs) :=
  PathSample.thereafter unbound boundCheck
    (PathSample.steps 0 12 ++
      .answer 0 :: .issue (.lookup NodeId.ROOT [98] {}) :: PathSample.steps 1 7)

/-- The node was forgotten and unlinked, its number was used again, and the second lookup has been
answered. -/
private def usedAgain : Config (service PathSample.fs) :=
  PathSample.thereafter lookedUp elsewhereCheck
    (PathSample.whole 2 1 (.forget 2 1) ++
      PathSample.whole 3 8 (.treeOp (.unlink NodeId.ROOT [98]) {}) ++
      PathSample.whole 4 19 (PathSample.mknod [97]) ++ PathSample.steps 1 9 ++ [.answer 1])

/-- What an answered thread says of the name. -/
private def saysTwice (c : Config (service PathSample.fs)) (n : ℕ) : List (ℕ × Option ℕ) :=
  match c.threads[n]? with
  | some ⟨_, req, .done a⟩ => obtained req a twice
  | _ => []

private lemma says_of_eq {c : Config (service PathSample.fs)} {n g : ℕ}
    (h : saysTwice c n = [(2, some g)]) :
    ∃ t req a, c.threads[n]? = some ⟨t, req, .done a⟩ ∧
      obtained req a twice = [(2, some g)] := by
  unfold saysTwice at h
  split at h
  · next t req a ht => exact ⟨t, req, a, ht, h⟩
  · cases h

/-- The answer of the first lookup, while the name is bound. -/
theorem bound_name_stable_lookup : ∃ (c₁ c₂ : Config (service PathSample.fs))
    (es₁ es₂ : List (PathEvent PathSample.inner)),
    Traced anyAction (start PathSample.fs) c₁ es₁ ∧
    Traced (StaysBound ⟨1, [98]⟩ 2) c₁ c₂ es₂ ∧
      ∃ t req a, c₂.threads[0]? = some ⟨t, req, .done a⟩ ∧
        obtained req a ⟨1, [98]⟩ = [(2, some 0)] ∧
        ∃ sl, c₂.state.table.slot 2 = some sl ∧ 0 = sl.generation := by
  have hr₁ : Run (Elsewhere twice) (start PathSample.fs) unbound :=
    PathSample.run_thereafter elsewhere_of_check _ _ (by decide +kernel)
  have hr₂ : Run (StaysBound twice 2) unbound lookedUp :=
    PathSample.run_thereafter bound_of_check _ _ (by decide +kernel)
  have hfind : lookedUp.state.fs.ns.find twice = some 2 := by decide +kernel
  have hsays : saysTwice lookedUp 0 = [(2, some 0)] := by decide +kernel
  generalize lookedUp = c₂ at hr₂ hfind hsays
  generalize unbound = c₁ at hr₁ hr₂
  obtain ⟨es₁, h₁⟩ := hr₁.traced
  obtain ⟨es₂, h₂⟩ := hr₂.traced
  obtain ⟨t, req, a, ht, hobt⟩ := says_of_eq hsays
  obtain ⟨sl, hsl, _, _, hall⟩ := bound_name_stable h₁.any h₂ hfind .refl .refl
  refine ⟨c₁, c₂, es₁, es₂, h₁.any, h₂, t, req, a, ht, hobt, sl, hsl, ?_⟩
  have hentry := hall 0 t req a ht ?_ (2, some 0) (by rw [hobt]; exact List.mem_cons_self)
  · exact hentry.2 (fun e he => nomatch he) 0 rfl
  · intro e he _ i
    exact not_resolves h₁ (by simpa using he) i

/-- Both lookups resolve the name while it is bound to node 2.  The second one has not got a lease
when the name is removed, and reads the generation of the node that is number 2 by then. -/
theorem generations_differ : ∃ (c₁ c₂ c₃ : Config (service PathSample.fs))
    (es₁ es₂ es₃ : List (PathEvent PathSample.inner)),
    Traced anyAction (start PathSample.fs) c₁ es₁ ∧
    Traced (StaysBound ⟨1, [98]⟩ 2) c₁ c₂ es₂ ∧
      Traced anyAction c₂ c₃ es₃ ∧
      (∀ e ∈ es₁ ++ es₃, ∀ i, ¬ Resolves ⟨1, [98]⟩ i e) ∧
      (∃ t req a, c₃.threads[0]? = some ⟨t, req, .done a⟩ ∧
        obtained req a ⟨1, [98]⟩ = [(2, some 0)]) ∧
      ∃ t req a, c₃.threads[1]? = some ⟨t, req, .done a⟩ ∧
        obtained req a ⟨1, [98]⟩ = [(2, some 1)] := by
  have hr₁ : Run (Elsewhere twice) (start PathSample.fs) unbound :=
    PathSample.run_thereafter elsewhere_of_check _ _ (by decide +kernel)
  have hr₂ : Run (StaysBound twice 2) unbound lookedUp :=
    PathSample.run_thereafter bound_of_check _ _ (by decide +kernel)
  have hr₃ : Run (Elsewhere twice) lookedUp usedAgain :=
    PathSample.run_thereafter elsewhere_of_check _ _ (by decide +kernel)
  have hfirst : saysTwice usedAgain 0 = [(2, some 0)] := by decide +kernel
  have hsecond : saysTwice usedAgain 1 = [(2, some 1)] := by decide +kernel
  obtain ⟨es₁, h₁⟩ := hr₁.traced
  obtain ⟨es₂, h₂⟩ := hr₂.traced
  obtain ⟨es₃, h₃⟩ := hr₃.traced
  refine ⟨unbound, lookedUp, usedAgain, es₁, es₂, es₃, h₁.any, h₂, h₃.any, ?_,
    says_of_eq hfirst, says_of_eq hsecond⟩
  intro e he i
  rcases List.mem_append.mp he with he | he
  · exact not_resolves h₁ he i
  · exact not_resolves h₃ he i

end TypedFuse
