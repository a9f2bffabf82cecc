import TypedFuse.Core.Routing
import TypedFuse.Path.Stable

/-!
# What a request binds and takes back

A listing takes back only names that it has bound itself and not taken back yet, and the entries of
its answer are names that it has not taken back since it resolved them.  Both are facts about the
past of a single request: `inserted` are the names that it has bound and not unbound, and
`Remembers` says that it has got a node for a name and kept the name since.
-/

namespace TypedFuse

open Conc Conc.Service NodeTable TypedFuse.Runtime

variable {P : PathFilesystem} {n : ℕ} {α β D τ : Type}

/-! ## Pasts -/

/-- The instruction binds the name. -/
def Binds (d : Dentry) (i : RtInstr (PathNodeFs.sig P)) : Prop :=
  ∃ key id, i = PathInstr.rt (.record key id d)

/-- The instruction unbinds the name. -/
def Unbinds (d : Dentry) (i : RtInstr (PathNodeFs.sig P)) : Prop :=
  i = PathInstr.rt (.remove d)

/-- The instruction neither binds nor unbinds a name. -/
def NameFree : RtInstr (PathNodeFs.sig P) → Prop
  | .fs (.own i) =>
    match (i : PathInstr P) with
    | .record _ _ _ => False
    | .remove _ => False
    | .addAlias _ _ => False
    | _ => True
  | _ => True

lemma NameFree.not_binds {i : RtInstr (PathNodeFs.sig P)} (h : NameFree i) (d : Dentry) :
    ¬ Binds d i := by
  rintro ⟨key, id, rfl⟩
  exact h

lemma NameFree.not_unbinds {i : RtInstr (PathNodeFs.sig P)} (h : NameFree i) (d : Dentry) :
    ¬ Unbinds d i := by
  rintro rfl
  exact h

/-- The names that are bound and not unbound after one more instruction. -/
def insertedAfter (names : Multiset Dentry) : RtInstr (PathNodeFs.sig P) → Multiset Dentry
  | .fs (.own i) =>
    match (i : PathInstr P) with
    | .record _ _ d => d ::ₘ names
    | .remove d => names.erase d
    | _ => names
  | _ => names

/-- The names that a request with the given past has bound and not unbound. -/
def inserted (past : List (PathEvent P)) : Multiset Dentry :=
  past.foldl (fun names e => insertedAfter names e.instr) 0

lemma inserted_snoc (past : List (PathEvent P)) (e : PathEvent P) :
    inserted (past ++ [e]) = insertedAfter (inserted past) e.instr :=
  List.foldl_concat ..

lemma NameFree.insertedAfter {i : RtInstr (PathNodeFs.sig P)} (h : NameFree i)
    (names : Multiset Dentry) : insertedAfter names i = names := by
  unfold TypedFuse.insertedAfter
  split
  · split
    · exact absurd h not_false
    · exact absurd h not_false
    · rfl
  · rfl

/-- The name is not unbound, unless it is bound again before. -/
def Lasts (d : Dentry) : List (PathEvent P) → Prop
  | [] => True
  | e :: es => Binds d e.instr ∨ (¬ Unbinds d e.instr ∧ Lasts d es)

section Lasts

variable {d : Dentry} {i : NodeId} {es es' past : List (PathEvent P)}

lemma Lasts.append (h : Lasts d es) (h' : Lasts d es') : Lasts d (es ++ es') := by
  induction es with
  | nil => exact h'
  | cons e es ih =>
    rcases h with hb | ⟨hu, hl⟩
    · exact Or.inl hb
    · exact Or.inr ⟨hu, ih hl⟩

lemma Lasts.of_append (h : Lasts d (es ++ es')) : Lasts d es := by
  induction es with
  | nil => trivial
  | cons e es ih =>
    rcases h with hb | ⟨hu, hl⟩
    · exact Or.inl hb
    · exact Or.inr ⟨hu, ih hl⟩

lemma lasts_of_not_unbinds (h : ∀ e ∈ es, ¬ Unbinds d e.instr) : Lasts d es := by
  induction es with
  | nil => trivial
  | cons e es ih =>
    exact Or.inr ⟨h e List.mem_cons_self, ih fun e' he' => h e' (List.mem_cons_of_mem e he')⟩

/-- What comes after the name was bound again does not matter. -/
lemma lasts_of_binds {e : PathEvent P} (h : ∀ e ∈ es, ¬ Unbinds d e.instr)
    (hb : Binds d e.instr) (es' : List (PathEvent P)) : Lasts d (es ++ e :: es') :=
  (lasts_of_not_unbinds h).append (Or.inl hb)

/-- If the name was not bound again, the last instruction does not unbind it. -/
lemma Lasts.last {e : PathEvent P} (h : Lasts d (es ++ [e]))
    (hb : ∀ e' ∈ es, ¬ Binds d e'.instr) : ¬ Unbinds d e.instr := by
  induction es with
  | nil =>
    rcases h with ⟨key, id, hi⟩ | ⟨hu, _⟩
    · intro hu
      cases hi.symm.trans hu
    · exact hu
  | cons e' es ih =>
    rcases h with hbound | ⟨_, hl⟩
    · exact absurd hbound (hb e' List.mem_cons_self)
    · exact ih hl fun e'' he'' => hb e'' (List.mem_cons_of_mem e' he'')

/-- The request has got the node for the name, and has kept the name since. -/
def Remembers (d : Dentry) (i : NodeId) (past : List (PathEvent P)) : Prop :=
  ∃ es₁ e es₂, past = es₁ ++ e :: es₂ ∧ Resolves d i e ∧ Lasts d es₂

lemma Remembers.append (h : Remembers d i past) (hl : Lasts d es) : Remembers d i (past ++ es) := by
  obtain ⟨es₁, e, es₂, rfl, hr, hkeep⟩ := h
  exact ⟨es₁, e, es₂ ++ es, by simp, hr, hkeep.append hl⟩

/-- The second past is the first one and instructions that leave the names alone. -/
def Beside (past past' : List (PathEvent P)) : Prop :=
  ∃ es, past' = past ++ es ∧ ∀ e ∈ es, NameFree e.instr

lemma Beside.refl (past : List (PathEvent P)) : Beside past past :=
  ⟨[], by simp, fun e he => nomatch he⟩

lemma Beside.snoc {past' : List (PathEvent P)} (h : Beside past past') {e : PathEvent P}
    (he : NameFree e.instr) : Beside past (past' ++ [e]) := by
  obtain ⟨es, rfl, hes⟩ := h
  refine ⟨es ++ [e], by simp, ?_⟩
  intro e' he'
  rcases List.mem_append.mp he' with he' | he'
  · exact hes e' he'
  · rw [List.mem_singleton.mp he']
    exact he

lemma Beside.trans {past' past'' : List (PathEvent P)} (h : Beside past past')
    (h' : Beside past' past'') : Beside past past'' := by
  obtain ⟨es, rfl, hes⟩ := h
  obtain ⟨es', rfl, hes'⟩ := h'
  refine ⟨es ++ es', by simp, ?_⟩
  intro e he
  rcases List.mem_append.mp he with he | he
  · exact hes e he
  · exact hes' e he

lemma Beside.inserted {past' : List (PathEvent P)} (h : Beside past past') :
    inserted past' = inserted past := by
  obtain ⟨es, rfl, hes⟩ := h
  induction es using List.reverseRecOn with
  | nil => rw [List.append_nil]
  | append_singleton es e ih =>
    rw [← List.append_assoc, inserted_snoc, (hes e (by simp)).insertedAfter]
    exact ih fun e' he' => hes e' (List.mem_append_left _ he')

lemma Beside.remembers {past' : List (PathEvent P)} (h : Beside past past')
    (hr : Remembers d i past) : Remembers d i past' := by
  obtain ⟨es, rfl, hes⟩ := h
  exact hr.append (lasts_of_not_unbinds fun e he => (hes e he).not_unbinds d)

end Lasts

/-! ## What a request may do after what it has done -/

/-- The instructions of a request about the names of one directory: it binds names there, unbinds
what it has inserted, and adds no aliases. -/
def Orderly (this : NodeId) (past : List (PathEvent P)) : RtInstr (PathNodeFs.sig P) → Prop
  | .fs (.own i) =>
    match (i : PathInstr P) with
    | .record _ _ d => d.parent = this
    | .remove d => d ∈ inserted past
    | .addAlias _ _ => False
    | _ => True
  | _ => True

lemma NameFree.orderly {i : RtInstr (PathNodeFs.sig P)} (h : NameFree i) (this : NodeId)
    (past : List (PathEvent P)) : Orderly this past i := by
  unfold Orderly
  split
  · split
    · exact absurd h not_false
    · exact absurd h not_false
    · exact absurd h not_false
    · trivial
  · trivial

/-- The thread `n` with the given past may run `p`, and ends with an answer and a past in `Q`. -/
abbrev Goes (n : ℕ) (this : NodeId) (past : List (PathEvent P))
    (p : RtProg (PathNodeFs.sig P) α) (Q : α → List (PathEvent P) → Prop) : Prop :=
  Tracks (S := service (pathNodeFs P)) (Orderly this) n past p Q

section Goes

variable {this parent : NodeId} {past : List (PathEvent P)}

/-- A program that leaves the names alone. -/
lemma goes_nameFree {p : RtProg (PathNodeFs.sig P) α} (hp : p.Performs NameFree) :
    Goes n this past p fun _ past' => Beside past past' := by
  have hgo : ∀ (q : RtProg (PathNodeFs.sig P) α) (past' : List (PathEvent P)),
      q.Performs NameFree → Beside past past' →
      Goes n this past' q fun _ past'' => Beside past past'' := by
    intro q
    induction q with
    | ret a => exact fun _ _ h => h
    | act i k ih =>
      intro past' hq h
      exact ⟨hq.1.orderly this past', fun r => ih r _ (hq.2 r) (h.snoc hq.1)⟩
  exact hgo p past hp (.refl past)

/-- The runtime's own sections leave the names alone. -/
lemma framed_nameFree : Framed (pathNodeFs P) (fun p => p.Performs (NameFree (P := P))) where
  ret := fun a => Prog.performs_ret a
  bind := fun hp hf => Prog.Performs.bind hp hf
  sect := by
    intro i hi
    refine Prog.performs_perform ?_
    cases i with
    | fs j => exact absurd rfl (hi j)
    | _ => trivial

/-- A callback that calls the inner filesystem with what `node_path` returns. -/
lemma nameFree_pathThen (node : PathNode) {next : Option Path → PathNodeFs.Callback P α}
    (hnext : ∀ path, (call (σ := PathNodeFs.sig P) (next path)).Performs NameFree) :
    (call (σ := PathNodeFs.sig P) (PathNodeFs.reading do
      let path ← PathNodeFs.nodePath node
      next path)).Performs NameFree := by
  have hend : ∀ path, (call (σ := PathNodeFs.sig P) (next path >>= fun a =>
      PathNodeFs.own .readUnlock >>= fun _ => .ret a)).Performs NameFree := by
    intro path
    rw [call_bind]
    exact (hnext path).bind fun a => ⟨trivial, fun _ => trivial⟩
  refine ⟨trivial, fun _ => ⟨trivial, fun o => ?_⟩⟩
  cases o with
  | none => exact hend none
  | some id => exact ⟨trivial, fun path => hend path⟩

/-- The callbacks that are not about names leave them alone. -/
lemma mild_nameFree : Mild (pathNodeFs P) (fun p => p.Performs (NameFree (P := P))) where
  toFramed := framed_nameFree
  populate := Prog.performs_ret ()
  getattr := fun node h caller => nameFree_pathThen node fun path => ⟨trivial, fun _ => trivial⟩
  nodeOp := by
    intro op node caller
    refine nameFree_pathThen node fun path => ?_
    cases path with
    | none => exact Prog.performs_ret _
    | some path => exact ⟨trivial, fun _ => trivial⟩
  fsyncdir := fun node h datasync caller =>
    nameFree_pathThen node fun path => ⟨trivial, fun _ => trivial⟩
  statfs := fun caller =>
    ⟨trivial, fun _ => ⟨trivial, fun _ => ⟨trivial, fun _ => trivial⟩⟩⟩
  openNode := by
    intro k node flags caller
    refine nameFree_pathThen node fun path => ?_
    cases path with
    | none => exact Prog.performs_ret _
    | some path => exact ⟨trivial, fun _ => trivial⟩
  release := fun k node h caller =>
    nameFree_pathThen node fun path => ⟨trivial, fun _ => trivial⟩

/-- `Namespace::insert` gets a node for the name: it was bound, or it is bound and inserted now. -/
inductive Got (d : Dentry) (i : NodeId) (past : List (PathEvent P)) :
    Bool → List (PathEvent P) → Prop where
  | found {past' : List (PathEvent P)} (h : Beside past past') (hr : Remembers d i past') :
      Got d i past false past'
  | made {past₁ past' : List (PathEvent P)} {e : PathEvent P} (h : Beside past past₁)
      (hb : Binds d e.instr) (h' : Beside (past₁ ++ [e]) past') (hr : Remembers d i past') :
      Got d i past true past'

lemma goes_insert (this : NodeId) (name : Name) (past : List (PathEvent P)) :
    Goes n this past (call (σ := PathNodeFs.sig P) (PathNodeFs.insert this name))
      fun r past' => Got ⟨this, name⟩ r.1 past r.2 past' := by
  refine ⟨trivial, fun _ => ⟨trivial, fun r => ?_⟩⟩
  have hlock : Beside past (past ++ [⟨n, PathInstr.rt .nsLock, ()⟩]) :=
    (Beside.refl past).snoc (by trivial)
  cases r with
  | some id =>
    refine ⟨trivial, fun _ => ?_⟩
    refine .found ((hlock.snoc (by trivial)).snoc (by trivial)) ?_
    exact ⟨_, _, [_], List.append_assoc _ [_] [_], .found n,
      lasts_of_not_unbinds fun e he => by
        obtain rfl := List.mem_singleton.mp he
        exact NameFree.not_unbinds (by trivial) _⟩
  | none =>
    refine ⟨trivial, fun key => ⟨trivial, fun id => ?_⟩⟩
    refine ⟨rfl, fun _ => ⟨trivial, fun _ => ?_⟩⟩
    refine .made (((hlock.snoc (by trivial)).snoc (by trivial)).snoc (by trivial))
      ⟨key, id, rfl⟩
      ((Beside.refl _).snoc (by trivial)) ?_
    exact ⟨_, _, [_], List.append_assoc _ [_] [_], .made n key,
      lasts_of_not_unbinds fun e he => by
        obtain rfl := List.mem_singleton.mp he
        exact NameFree.not_unbinds (by trivial) _⟩

lemma Got.remembers {d : Dentry} {i : NodeId} {new : Bool} {past' : List (PathEvent P)}
    (h : Got d i past new past') : Remembers d i past' := by
  cases h with
  | found _ hr => exact hr
  | made _ _ _ hr => exact hr

/-- `add_node` gets a node for the name. -/
lemma goes_addNode (this : NodeId) (name : Name) (past : List (PathEvent P)) :
    Goes n this past (call (σ := PathNodeFs.sig P) (PathNodeFs.addNode this name))
      fun id past' => Remembers ⟨this, name⟩ id past' := by
  unfold PathNodeFs.addNode
  rw [call_bind]
  refine (goes_insert this name past).bind ?_
  intro r past' hgot
  exact Tracks.ret hgot.remembers

/-- What is inserted afterwards. -/
lemma Got.inserted {d : Dentry} {i : NodeId} {new : Bool} {past' : List (PathEvent P)}
    (h : Got d i past new past') :
    inserted past' = if new then d ::ₘ inserted past else inserted past := by
  cases h with
  | found h _ => exact h.inserted
  | made h hb h' _ =>
    obtain ⟨key, id, hi⟩ := hb
    rw [h'.inserted, inserted_snoc, hi, if_pos rfl, ← h.inserted]
    rfl

/-- No name is unbound, and the name itself is bound first if it is inserted. -/
lemma Got.lasts {d : Dentry} {i : NodeId} {new : Bool} {past' : List (PathEvent P)}
    (h : Got d i past new past') : ∃ es, past' = past ++ es ∧
      ∀ (d' : Dentry) (es' : List (PathEvent P)),
        (∀ e ∈ es', Unbinds d' e.instr → new = true ∧ d' = d) → Lasts d' (es ++ es') := by
  cases h with
  | found h _ =>
    obtain ⟨es, rfl, hes⟩ := h
    refine ⟨es, rfl, ?_⟩
    intro d' es' hes'
    refine (lasts_of_not_unbinds fun e he => (hes e he).not_unbinds d').append
      (lasts_of_not_unbinds fun e he hu => ?_)
    exact Bool.false_ne_true (hes' e he hu).1
  | @made past₁ _ e h hb h' _ =>
    obtain ⟨es₁, rfl, hes₁⟩ := h
    obtain ⟨es₂, rfl, hes₂⟩ := h'
    refine ⟨es₁ ++ e :: es₂, by simp, ?_⟩
    intro d' es' hes'
    by_cases hd : d' = d
    · subst hd
      rw [List.append_assoc]
      exact lasts_of_binds (fun e he => (hes₁ e he).not_unbinds d') hb _
    · refine Lasts.append (lasts_of_not_unbinds ?_) (lasts_of_not_unbinds ?_)
      · obtain ⟨key, id, hi⟩ := hb
        intro e' he' hu
        rcases List.mem_append.mp he' with he' | he'
        · exact (hes₁ e' he').not_unbinds d' hu
        · rcases List.mem_cons.mp he' with rfl | he'
          · rw [hi] at hu
            cases hu
          · exact (hes₂ e' he').not_unbinds d' hu
      · exact fun e' he' hu => hd (hes' e' he' hu).2

/-- Taking a name back. -/
lemma goes_removeDentry {d : Dentry} {past : List (PathEvent P)} (hd : d ∈ inserted past) :
    Goes n this past (call (σ := PathNodeFs.sig P) (PathNodeFs.removeDentry d))
      fun _ past' => inserted past' = (inserted past).erase d ∧
        ∃ es, past' = past ++ es ∧ ∀ d', ∀ e ∈ es, Unbinds d' e.instr → d' = d := by
  have hlock : ∀ r, inserted (past ++ [⟨n, PathInstr.rt .nsLock, r⟩]) = inserted past :=
    fun r => ((Beside.refl past).snoc (by trivial)).inserted
  refine ⟨trivial, fun r => ⟨?_, fun removed => ?_⟩⟩
  · exact Eq.mpr (congrArg (fun names => d ∈ names) (hlock r)) hd
  · -- the rest leaves the names alone
    have hrest : (call (σ := PathNodeFs.sig P) (PathNodeFs.removeLinkOf removed >>= fun _ =>
        PathNodeFs.own .nsUnlock)).Performs NameFree := by
      cases removed with
      | none => exact ⟨trivial, fun _ => trivial⟩
      | some id => exact ⟨trivial, fun _ => ⟨trivial, fun _ => trivial⟩⟩
    refine (goes_nameFree hrest).mono ?_
    rintro _ past' hbeside
    refine ⟨?_, ?_⟩
    · exact (hbeside.inserted.trans (inserted_snoc _ _)).trans
        (congrArg (fun names => names.erase d) (hlock r))
    · obtain ⟨es, rfl, hes⟩ := hbeside
      refine ⟨⟨n, PathInstr.rt .nsLock, r⟩ :: ⟨n, PathInstr.rt (.remove d), removed⟩ ::
        es, ?_, ?_⟩
      · rw [List.append_assoc, List.append_assoc]
        rfl
      · intro d' e he hu
        rcases List.mem_cons.mp he with rfl | he
        · cases hu
        · rcases List.mem_cons.mp he with rfl | he
          · cases hu
            rfl
          · exact absurd hu ((hes e he).not_unbinds d')

/-- Taking all inserted names back. -/
lemma goes_rollback (ds : List Dentry) {past : List (PathEvent P)} (h : inserted past = ↑ds) :
    Goes n this past (call (σ := PathNodeFs.sig P) (PathNodeFs.rollback ds))
      fun _ _ => True := by
  induction ds generalizing past with
  | nil => trivial
  | cons d ds ih =>
    have hd : d ∈ inserted past := by
      rw [h]
      exact Multiset.mem_coe.mpr List.mem_cons_self
    change Goes n this past (call (σ := PathNodeFs.sig P)
      (PathNodeFs.removeDentry d >>= fun _ => PathNodeFs.rollback ds)) _
    rw [call_bind]
    refine (goes_removeDentry hd).bind ?_
    rintro _ past' ⟨hpast', _⟩
    refine ih ?_
    rw [hpast', h, Multiset.coe_erase, List.erase_cons_head]

/-- The node of an emitted entry, which is inserted if it has a name of its own and is not known. -/
lemma goes_enumerate (this parent : NodeId) (name : Name) (past : List (PathEvent P)) :
    Goes n this past (call (σ := PathNodeFs.sig P) (PathNodeFs.enumerate this parent name))
      fun r past' => (name.isDots ∧ r.2 = none ∧ past' = past) ∨
        ∃ new : Bool, r.2 = (if new then some ⟨this, name⟩ else none) ∧
          Got ⟨this, name⟩ r.1 past new past' := by
  unfold PathNodeFs.enumerate
  split
  · next hdot => exact Tracks.ret (Or.inl ⟨Or.inl hdot, rfl, rfl⟩)
  · split
    · next hdots => exact Tracks.ret (Or.inl ⟨Or.inr hdots, rfl, rfl⟩)
    · unfold PathNodeFs.addEnumeratedNode
      rw [call_bind]
      refine (goes_insert this name past).bind ?_
      intro r past' hgot
      exact Tracks.ret (Or.inr ⟨r.2, rfl, hgot⟩)

end Goes

/-! ## Listings -/

/-- A sink whose state stands for entries: it leaves names alone, an entry that it accepts is a name
that was resolved, and one that it refuses changes nothing. -/
structure SinkKeeps (n : ℕ) (this : NodeId)
    (h : (i : DirInstr (PathNodeFs.sig P) D) → τ → RtProg (PathNodeFs.sig P) (i.Resp × τ))
    (I : τ → List (PathEvent P) → Prop) : Prop where
  fs : ∀ i acc, h (.fs i) acc = Runtime.sect (.fs i) >>= fun r => .ret (r, acc)
  more : ∀ {acc past es}, I acc past → (∀ d, Lasts d es) → I acc (past ++ es)
  add : ∀ {acc past name id data nextOffset}, I acc past →
    (¬ name.isDots → Remembers ⟨this, name⟩ id past) →
    Goes n this past (h (.add name id data nextOffset) acc) fun r past' => Beside past past' ∧
      ((r.1 : Bool) = true → I r.2 past') ∧
      ((r.1 : Bool) = false → ∀ past'', I acc past'' → I r.2 past'')

section Listings

variable {h : (i : DirInstr (PathNodeFs.sig P) D) → τ →
    RtProg (PathNodeFs.sig P) (i.Resp × τ)}
  {I : τ → List (PathEvent P) → Prop} {this parent : NodeId} {past : List (PathEvent P)}

lemma SinkKeeps.beside (hok : SinkKeeps n this h I) {acc : τ} {past' : List (PathEvent P)}
    (hI : I acc past) (hb : Beside past past') : I acc past' := by
  obtain ⟨es, rfl, hes⟩ := hb
  exact hok.more hI fun d => lasts_of_not_unbinds fun e he => (hes e he).not_unbinds d

/-- A callback inside a directory callback. -/
lemma goes_inDir (hok : SinkKeeps n this h I) {p : PathNodeFs.Callback P α}
    {f : α → PathNodeFs.DirCallback P D β} {acc : τ} {R : α → List (PathEvent P) → Prop}
    {R' : β × τ → List (PathEvent P) → Prop}
    (hp : Goes n this past (call (σ := PathNodeFs.sig P) p) R)
    (hf : ∀ a past', R a past' → Goes n this past' ((f a).handle h acc) R') :
    Goes n this past ((FsProg.inDir p >>= f).handle h acc) R' := by
  refine Eq.mpr (congrArg (fun q => Goes n this past q R') (handle_inDir hok.fs p f acc)) ?_
  exact Tracks.bind hp hf

/-- A listing has inserted what it has recorded as such, and its sink keeps what it stands for. -/
lemma goes_emitAll (hok : SinkKeeps n this h I) (parent : NodeId) (listing : Listing D)
    (ds : List Dentry) (acc : τ) (past : List (PathEvent P)) (hds : inserted past = ↑ds)
    (hI : I acc past) :
    Goes n this past ((PathNodeFs.emitAll this parent listing ds).handle h acc) fun r past' =>
      inserted past' = ↑r.1.2 ∧ I r.2 past' := by
  induction listing generalizing ds acc past with
  | finish result => exact Tracks.ret ⟨hds, hI⟩
  | emit name data nextOffset next ih =>
    refine goes_inDir hok (goes_enumerate this parent name past) ?_
    rintro ⟨id, dentry⟩ past₁ hgot
    obtain ⟨hI₁, hresolved⟩ : I acc past₁ ∧
        (¬ name.isDots → Remembers ⟨this, name⟩ id past₁) := by
      rcases hgot with ⟨hdots, _, rfl⟩ | ⟨new, _, hgot⟩
      · exact ⟨hI, fun hno => absurd hdots hno⟩
      · obtain ⟨es, hes, hlasts⟩ := hgot.lasts
        refine ⟨?_, fun _ => hgot.remembers⟩
        rw [hes]
        exact hok.more hI fun d => (hlasts d [] fun e he => nomatch he).of_append
    refine Tracks.bind (hok.add hI₁ hresolved) ?_
    rintro ⟨accepted, acc'⟩ past₂ ⟨hbeside, hyes, hno⟩
    have hacc : I acc' past₂ := by
      cases accepted with
      | true => exact hyes rfl
      | false => exact hno rfl past₂ (hok.beside hI₁ hbeside)
    rcases hgot with ⟨_, hnone, rfl⟩ | ⟨new, hnew, hgot⟩
    · obtain rfl : dentry = none := hnone
      exact ih accepted ds acc' past₂ (hbeside.inserted.trans hds) hacc
    · have hins := hbeside.inserted.trans hgot.inserted
      cases new with
      | false =>
        obtain rfl : dentry = none := hnew
        exact ih accepted ds acc' past₂ (hins.trans hds) hacc
      | true =>
        obtain rfl : dentry = some ⟨this, name⟩ := hnew
        rw [if_pos rfl, hds] at hins
        cases accepted with
        | true =>
          refine ih true (ds ++ [⟨this, name⟩]) acc' past₂ (hins.trans ?_) hacc
          exact Multiset.coe_eq_coe.mpr (List.perm_append_singleton _ ds).symm
        | false =>
          -- the name was bound and is unbound again
          have hmem : (⟨this, name⟩ : Dentry) ∈ inserted past₂ := by
            rw [hins]
            exact Multiset.mem_cons_self _ _
          refine goes_inDir hok (goes_removeDentry hmem) ?_
          rintro _ past₃ ⟨hins₃, es₃, rfl, hes₃⟩
          obtain ⟨es₁, rfl, hlasts⟩ := hgot.lasts
          obtain ⟨es₂, rfl, hes₂⟩ := hbeside
          refine ih false ds acc' _ ?_ (hno rfl _ ?_)
          · rw [hins₃, hins, Multiset.erase_cons_head]
          · rw [List.append_assoc, List.append_assoc]
            refine hok.more hI fun d => hlasts d _ ?_
            intro e he hu
            rcases List.mem_append.mp he with he | he
            · exact absurd hu ((hes₂ e he).not_unbinds d)
            · exact ⟨rfl, hes₃ d e he hu⟩

/-- A callback that calls the inner filesystem leaves the names alone. -/
lemma nameFree_inner (c : PathCall P.Payload) :
    (call (σ := PathNodeFs.sig P) (PathNodeFs.inner c)).Performs NameFree :=
  ⟨trivial, fun _ => trivial⟩

/-- A successful `readdir` or `readdirplus` has kept what its sink stands for. -/
lemma goes_listDir (hok : SinkKeeps n this h I) (node : PathNode)
    {list : Path → PathNodeFs.Callback P (Listing D)}
    (hlist : ∀ path, (call (σ := PathNodeFs.sig P) (list path)).Performs NameFree) (acc : τ)
    (hnone : inserted past = 0) (hI : I acc past) :
    Goes n this past ((PathNodeFs.listDir node this parent list).handle h acc) fun r past' =>
      r.1 = .ok () → I r.2 past' := by
  have hunlock : ∀ past, Goes n this past (call (σ := PathNodeFs.sig P)
      (PathNodeFs.own .readUnlock)) fun _ past' => Beside past past' :=
    fun past => goes_nameFree ⟨trivial, fun _ => trivial⟩
  refine goes_inDir hok (goes_nameFree (p := call (σ := PathNodeFs.sig P)
    (PathNodeFs.own .readLock)) ⟨trivial, fun _ => trivial⟩) ?_
  intro _ past₁ hb₁
  refine goes_inDir hok (goes_nameFree (p := call (σ := PathNodeFs.sig P)
    (PathNodeFs.nodePath node)) ⟨trivial, fun o => ?_⟩) ?_
  · cases o with
    | none => trivial
    | some id => exact ⟨trivial, fun _ => trivial⟩
  intro path past₂ hb₂
  cases path with
  | none =>
    refine goes_inDir hok (hunlock past₂) ?_
    intro _ past₃ _
    exact Tracks.ret fun hr => nomatch hr
  | some path =>
    refine goes_inDir hok (goes_nameFree (hlist path)) ?_
    intro listing past₃ hb₃
    have hb := (hb₁.trans hb₂).trans hb₃
    have hemit := goes_emitAll hok parent listing [] acc past₃
      (hb.inserted.trans hnone) (hok.beside hI hb)
    refine Eq.mpr (congrArg (fun q => Goes n this past₃ q _) (Prog.handle_bind h _ _ acc))
      (Tracks.bind hemit ?_)
    rintro ⟨⟨result, ds⟩, acc'⟩ past₄ ⟨hins, hacc⟩
    have hundo : Goes n this past₄ (call (σ := PathNodeFs.sig P) (PathNodeFs.undo result ds))
        fun _ past' => result = .ok () → past' = past₄ := by
      match result with
      | .ok _ => exact Tracks.ret fun _ => rfl
      | .error .panic => exact Tracks.ret fun _ => rfl
      | .error (.errno e) =>
        have hrev : inserted past₄ = ↑ds.reverse := by
          rw [hins, Multiset.coe_reverse]
        exact (goes_rollback ds.reverse hrev).mono fun _ _ _ hr => nomatch hr
    refine goes_inDir hok hundo ?_
    intro _ past₅ hsame
    refine goes_inDir hok (hunlock past₅) ?_
    intro _ past₆ hb₆
    refine Tracks.ret ?_
    intro hr
    obtain rfl := hsame hr
    exact hok.beside hacc hb₆

end Listings

/-! ## Requests -/

/-- A postcondition that errors meet, and that is met after more instructions which leave the names
alone. -/
structure Settling (Q : Fallible α → List (PathEvent P) → Prop) : Prop where
  error : ∀ e past, Q (.error e) past
  beside : ∀ {r past past'}, Q r past → Beside past past' → Q r past'

section Requests

variable {this : NodeId} {past : List (PathEvent P)} {ino fh : ℕ}
  {Q : Fallible α → List (PathEvent P) → Prop}

/-- `node(ino)?` and the rest of the function. -/
lemma goes_withNode (hQ : Settling Q) {body : NodeRef PathNode →
      RtProg (PathNodeFs.sig P) (Fallible α)} (hnone : inserted past = 0)
    (hbody : ∀ ref past', inserted past' = 0 → Goes n this past' (body ref) Q) :
    Goes n this past (withNode (σ := PathNodeFs.sig P) ino body) Q := by
  refine Tracks.step (NameFree.orderly (by trivial) this past) fun r => ?_
  have hb : Beside past (past ++ [⟨n, .node ino, r⟩]) := (Beside.refl past).snoc (by trivial)
  cases r with
  | none => exact Tracks.ret (hQ.error _ _)
  | some ref =>
    refine Tracks.bind (hbody ref _ (hb.inserted.trans hnone)) ?_
    intro a past' ha
    refine Tracks.step (NameFree.orderly (by trivial) this past') fun _ => ?_
    exact Tracks.ret (hQ.beside ha ((Beside.refl past').snoc (by trivial)))

/-- `dir(ino, fh)?` and the rest of the function. -/
lemma goes_withHandle (hQ : Settling Q) {k : HandleKind} {body : P.Payload k →
      RtProg (PathNodeFs.sig P) (Fallible α)} (hnone : inserted past = 0)
    (hbody : ∀ payload past', inserted past' = 0 → Goes n this past' (body payload) Q) :
    Goes n this past (withHandle (σ := PathNodeFs.sig P) k ino fh body) Q := by
  have hstep : ∀ {past} (i : RtInstr (PathNodeFs.sig P)) (r : i.Resp), NameFree i →
      inserted past = 0 → inserted (past ++ [(⟨n, i, r⟩ : PathEvent P)]) = 0 :=
    fun i r hi h => ((Beside.refl _).snoc hi).inserted.trans h
  refine Tracks.step (NameFree.orderly (by trivial) this past) fun r => ?_
  cases r with
  | none => exact Tracks.ret (hQ.error _ _)
  | some arc =>
    have hnone₁ := hstep (.findHandle k fh) (some arc) (by trivial) hnone
    refine Prog.wp_ite (fun _ => ?_) fun _ => ?_
    · refine Tracks.step (NameFree.orderly (by trivial) this _) fun granted => ?_
      have hnone₂ := hstep (.acquire k arc) granted (by trivial) hnone₁
      refine Prog.wp_ite (fun _ => ?_) fun _ => ?_
      · refine Tracks.step (NameFree.orderly (by trivial) this _) fun _ =>
          Tracks.step (NameFree.orderly (by trivial) this _) fun payload => ?_
        refine Tracks.bind (hbody payload _ (hstep (.deref k arc) payload (by trivial)
          (hstep (.dropArc k arc) () (by trivial) hnone₂))) ?_
        intro a past' ha
        refine Tracks.step (NameFree.orderly (by trivial) this past') fun _ =>
          Tracks.step (NameFree.orderly (by trivial) this _) fun _ => ?_
        exact Tracks.ret (hQ.beside ha (((Beside.refl past').snoc (by trivial)).snoc (by trivial)))
      · exact Tracks.step (NameFree.orderly (by trivial) this _) fun _ =>
          Tracks.ret (hQ.error _ _)
    · exact Tracks.step (NameFree.orderly (by trivial) this _) fun _ => Tracks.ret (hQ.error _ _)

/-- A listing within the scopes of its directory and its handle. -/
lemma goes_scopes (hQ : Settling Q)
    {body : NodeRef (pathNodeFs P).Node → NodeId → (pathNodeFs P).Payload .dir →
      RtProg (pathNodeFs P).toFsSig (Fallible α)}
    {scope : NodeRef (pathNodeFs P).Node → Option NodeId →
      RtProg (pathNodeFs P).toFsSig (Fallible α)}
    (hnone : ∀ node, scope node none = .ret (fail .ENOENT))
    (hsome : ∀ node parent, scope node (some parent) = withHandle .dir ino fh (body node parent))
    (hbody : ∀ node parent payload past', inserted past' = 0 →
      Goes n this past' (body node parent payload) Q) :
    Goes n this [] (withNode ino fun node => Runtime.sect (.parentOf ino) >>= scope node) Q := by
  refine goes_withNode hQ rfl fun node past' hpast' => ?_
  refine Tracks.step (NameFree.orderly (by trivial) this past') fun parent => ?_
  have hb : Beside past' (past' ++ [⟨n, .parentOf ino, parent⟩]) :=
    (Beside.refl past').snoc (by trivial)
  cases parent with
  | none =>
    exact Eq.mpr (congrArg (fun q => Goes n this _ q Q) (hnone node)) (Tracks.ret (hQ.error _ _))
  | some parent =>
    exact Eq.mpr (congrArg (fun q => Goes n this _ q Q) (hsome node parent))
      (goes_withHandle hQ (hb.inserted.trans hpast') (hbody node parent))

/-- The names in an answer, with the numbers of their nodes: what `lookup` has found, and the
entries of `readdirplus` that are in the reply. -/
def handedNames (req : Request) (a : Fallible Reply) : List (Dentry × NodeId) :=
  match req, a with
  | .lookup parent name _, .ok (.entry e) => [(⟨parent, name⟩, e.reply.ino)]
  | .readdirplus ino _ _ sink _, .ok (.retained _ offered) =>
    (acceptedPlus sink offered).map fun e => (⟨ino, e.name⟩, e.entry.ino)
  | _, _ => []

/-- The request looks up or lists the names of a directory. -/
def Request.Enumerates (this : NodeId) : Request → Prop
  | .lookup parent _ _ => parent = this
  | .readdir ino _ _ _ _ => ino = this
  | .readdirplus ino _ _ _ _ => ino = this
  | _ => False

/-- The accounting sink of `readdirplus` keeps the accepted entries. -/
lemma sinkKeeps_readdirplus (sink : Sink PlusEntry)
    {h : (i : DirInstr (PathNodeFs.sig P) NodeAttr) → Accounting →
      RtProg (PathNodeFs.sig P) (i.Resp × Accounting)}
    (hfs : ∀ i acc, h (.fs i) acc = Runtime.sect (.fs i) >>= fun r => .ret (r, acc))
    (hadd : ∀ name id attr nextOffset acc, h (.add name id attr nextOffset) acc =
      Accounting.add sink acc name id attr nextOffset) :
    SinkKeeps n this h fun acc past =>
      ∀ e ∈ acceptedPlus sink acc.offered, Remembers ⟨this, e.name⟩ e.entry.ino past := by
  refine ⟨hfs, fun h hl e he => (h e he).append (hl _), ?_⟩
  intro acc past name id attr nextOffset h hresolved
  rw [hadd]
  refine Tracks.step (NameFree.orderly (by trivial) this past) fun g => ?_
  have hb : Beside past (past ++ [⟨n, .plusEntry id, g⟩]) :=
    (Beside.refl past).snoc (by trivial)
  cases g with
  | none => exact Tracks.ret ⟨hb, fun hno => (nomatch hno), fun _ _ h'' => h''⟩
  | some g =>
    -- the entry is accepted
    have hyes : ∀ {past'}, Beside past past' →
        sink acc.offered ⟨name, ⟨id, g, attr⟩, nextOffset⟩ = true →
        ∀ e ∈ acceptedPlus sink (acc.offered ++ [⟨name, ⟨id, g, attr⟩, nextOffset⟩]),
          Remembers ⟨this, e.name⟩ e.entry.ino past' := by
      intro past' hb' hsink e he
      rw [acceptedPlus_snoc] at he
      split at he
      · next hnew =>
        rcases List.mem_append.mp he with he | he
        · exact hb'.remembers (h e he)
        · obtain rfl := List.mem_singleton.mp he
          exact hb'.remembers (hresolved hnew.2)
      · exact hb'.remembers (h e he)
    refine Prog.wp_ite (fun hsink => ?_) fun hsink => ?_
    · refine Prog.wp_ite (fun _ => ?_) fun _ => ?_
      · refine Tracks.step (NameFree.orderly (by trivial) this _) fun r => ?_
        have hb' : Beside past (past ++ [⟨n, .plusEntry id, some g⟩] ++
            [⟨n, .retainLookup id, r⟩]) := hb.snoc (by trivial)
        cases r with
        | none => exact Tracks.ret ⟨hb', fun _ => hyes hb' hsink, fun hno => nomatch hno⟩
        | some _ => exact Tracks.ret ⟨hb', fun _ => hyes hb' hsink, fun hno => nomatch hno⟩
      · exact Tracks.ret ⟨hb, fun _ => hyes hb hsink, fun hno => nomatch hno⟩
    · refine Tracks.ret ⟨hb, fun hno => (nomatch hno), fun _ past'' h'' => ?_⟩
      change ∀ e ∈ acceptedPlus sink (acc.offered ++ [_]), _
      rw [acceptedPlus_snoc, if_neg fun hnew => hsink hnew.1]
      exact h''

/-- `readdir` binds and unbinds names as it may. -/
lemma goes_readdir (ino fh offset : ℕ) (sink : Sink DirEntry) (caller : Caller) :
    Goes n ino [] (Runtime.readdir (pathNodeFs P) ino fh offset sink caller) fun _ _ => True := by
  refine goes_scopes ⟨fun _ _ => trivial, fun _ _ => trivial⟩ (fun _ => rfl) (fun _ _ => rfl) ?_
  intro node parent handle past' hnone
  refine Tracks.bind (goes_listDir (I := fun _ _ => True)
    ⟨fun _ _ => rfl, fun _ _ => trivial, ?_⟩ node.record.payload
    (fun p => nameFree_inner (.readdir p handle offset caller)) [] hnone trivial) ?_
  · intro offered past name id kind nextOffset _ _
    exact Tracks.ret ⟨.refl past, fun _ => trivial, fun _ _ _ => trivial⟩
  · rintro ⟨result, offered⟩ past'' _
    exact Tracks.ret trivial

/-- A successful `readdirplus` has kept the names of its reply. -/
lemma goes_readdirplus (ino fh offset : ℕ) (sink : Sink PlusEntry) (caller : Caller) :
    Goes n ino [] (Runtime.readdirplus (pathNodeFs P) ino fh offset sink caller) fun r past =>
      ∀ l, r = .ok l →
        ∀ e ∈ acceptedPlus sink l.2, Remembers ⟨ino, e.name⟩ e.entry.ino past := by
  refine goes_scopes ⟨fun _ _ _ h => (nomatch h),
    fun h hb l hl e he => hb.remembers (h l hl e he)⟩ (fun _ => rfl) (fun _ _ => rfl) ?_
  intro node parent handle past' hnone
  refine Tracks.bind (goes_listDir (sinkKeeps_readdirplus sink (fun _ _ => rfl)
    fun _ _ _ _ _ => rfl) node.record.payload
    (fun p => nameFree_inner (.readdirplus p handle offset caller)) {} hnone
    fun e he => nomatch he) ?_
  rintro ⟨result, acc⟩ past'' hacc
  match result with
  | .ok u =>
    refine Tracks.ret ?_
    intro l hl
    obtain rfl : (acc.accepted, acc.offered) = l := Except.ok.inj hl
    exact hacc rfl
  | .error (.errno e) =>
    refine Tracks.bind (goes_nameFree (framed_nameFree.forgetAll acc.accepted)) ?_
    intro _ _ _
    exact Tracks.ret fun l hl => nomatch hl
  | .error .panic =>
    exact Tracks.step (NameFree.orderly (by trivial) ino past'') fun _ =>
      Tracks.ret fun l hl => nomatch hl

/-- A callback under a read guard of the operations lock. -/
lemma goes_reading {body : PathNodeFs.Callback P α} {Q : α → List (PathEvent P) → Prop}
    (hQ : ∀ {r past past'}, Q r past → Beside past past' → Q r past')
    (hbody : ∀ past', Goes n this past' (call (σ := PathNodeFs.sig P) body) Q) :
    Goes n this past (call (σ := PathNodeFs.sig P) (PathNodeFs.reading body)) Q := by
  refine ⟨trivial, fun _ => ?_⟩
  refine Eq.mpr (congrArg (fun q => Goes n this _ q Q) (call_bind body _))
    (Tracks.bind (hbody _) ?_)
  intro r past' h
  exact ⟨trivial, fun _ => hQ h ((Beside.refl past').snoc (by trivial))⟩

/-- The callback `lookup` has kept the name that it has found. -/
lemma goes_lookup (parent : NodeId) (name : Name) (caller : Caller) :
    Goes n parent past (call (σ := PathNodeFs.sig P) (PathNodeFs.lookup parent name caller))
      fun r past' => ∀ id, r = .ok (some id) → Remembers ⟨parent, name⟩ id past' := by
  refine goes_reading (fun h hb id hid => hb.remembers (h id hid)) fun past' => ?_
  refine ⟨trivial, fun path => ?_⟩
  cases path with
  | none => exact Tracks.ret fun id hid => nomatch hid
  | some path =>
    refine ⟨trivial, fun found => ?_⟩
    match found with
    | .error e => exact Tracks.ret fun id hid => nomatch hid
    | .ok none => exact Tracks.ret fun id hid => nomatch hid
    | .ok (some attr) =>
      refine Eq.mpr (congrArg (fun q => Goes n parent _ q _)
        (call_bind (PathNodeFs.addNode parent name) _)) ?_
      refine Tracks.bind (goes_addNode parent name _) ?_
      intro id past'' h
      refine Tracks.ret ?_
      intro id' hid
      obtain rfl : id = id' := Option.some.inj (Except.ok.inj hid)
      exact h

/-- `entry_for` leaves the names alone. -/
lemma goes_entryFor (id : NodeId) (caller : Caller) :
    Goes n this past (entryFor (pathNodeFs P) id caller) fun r past' =>
      (∀ e, r = .ok e → e.reply.ino = id) ∧ Beside past past' :=
  Tracks.returns (goes_nameFree (mild_nameFree.entryFor id caller)) (returns_entryFor id caller)

/-- Every request that enumerates a directory binds and unbinds names as it may, and has kept the
names that it hands out. -/
theorem goes_serve {this : NodeId} {req : Request} (hreq : req.Enumerates this) :
    Goes n this [] (serve (pathNodeFs P) req) fun a past =>
      ∀ x ∈ handedNames req a, Remembers x.1 x.2 past := by
  cases req with
  | lookup parent name caller =>
    obtain rfl : parent = this := hreq
    have hlookup : Goes n parent [] (Runtime.lookup (pathNodeFs P) parent name caller)
        fun r past => ∀ e, r = .ok (some e) → Remembers ⟨parent, name⟩ e.reply.ino past := by
      refine Tracks.bind (goes_lookup parent name caller) ?_
      intro r past h
      match r with
      | .error e => exact Tracks.ret fun e he => nomatch he
      | .ok none => exact Tracks.ret fun e he => nomatch he
      | .ok (some id) =>
        refine Tracks.bind (goes_entryFor id caller) ?_
        rintro entry past' ⟨hino, hbeside⟩
        refine Tracks.ret ?_
        intro e he
        cases entry with
        | error err => cases he
        | ok e' =>
          obtain rfl : e' = e := Option.some.inj (Except.ok.inj he)
          rw [hino e' rfl]
          exact hbeside.remembers (h id rfl)
    refine Tracks.bind hlookup ?_
    intro r past h
    refine Tracks.ret ?_
    intro x hx
    match r with
    | .error e => cases hx
    | .ok none => cases hx
    | .ok (some e) =>
      obtain rfl := List.mem_singleton.mp hx
      exact h e rfl
  | readdir ino fh offset sink caller =>
    obtain rfl : ino = this := hreq
    refine Tracks.bind (goes_readdir ino fh offset sink caller) ?_
    intro r past _
    refine Tracks.ret ?_
    intro x hx
    cases r with
    | error e => cases hx
    | ok l => cases hx
  | readdirplus ino fh offset sink caller =>
    obtain rfl : ino = this := hreq
    refine Tracks.bind (goes_readdirplus ino fh offset sink caller) ?_
    intro r past h
    refine Tracks.ret ?_
    intro x hx
    cases r with
    | error e => cases hx
    | ok l =>
      obtain ⟨e, he, rfl⟩ := List.mem_map.mp hx
      exact h l rfl e he
  | _ => exact absurd hreq not_false

end Requests

end TypedFuse
