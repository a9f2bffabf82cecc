import TypedFuse.Core.Triples

/-!
# The token logic of the runtime is sound

The logic of `Triples` holds along every run of the runtime, with any filesystem and under any
scheduling (`holds_of_run`).  The assumptions about the environment are conditions on the actions of
a run: `HonestKernel` and `StableNumbers`.
-/

namespace TypedFuse

open Conc Conc.Service NodeTable TypedFuse.Runtime

variable {fs : NodeFs} {E : Env}

/-- The kernel forgets no more lookups of an inode than it holds. -/
def HonestKernel (c : Config (service fs)) : Action (service fs) → Prop
  | .issue (.forget ino nlookup) => nlookup ≤ c.state.hist.held.count ino
  | _ => True

/-- `Cx::insert` is not given an inode number that a callback has returned and `entry_for` has not
leased yet. -/
def StableNumbers (c : Config (service fs)) : Action (service fs) → Prop
  | .step n _ => ∀ req payload parent id t', c.At n req (.fs (.insert payload parent)) →
      c.state.table.insert payload parent = some (id, t') → id ∉ c.state.hist.resolving
  | _ => True

/-! ## Soundness -/

lemma mem_view_vanished {m : ℕ} {T : Multiset Token} (h : m ∈ (view T).vanished) :
    Token.vanished m ∈ T := by
  induction T using Multiset.induction with
  | empty => simp [view, View.empty] at h
  | cons x T ih =>
    rw [view_cons] at h
    cases x with
    | vanished m' =>
      rcases Multiset.mem_cons.mp h with rfl | h
      · exact Multiset.mem_cons_self _ _
      · exact Multiset.mem_cons_of_mem (ih h)
    | _ => exact Multiset.mem_cons_of_mem (ih h)

/-- The kernel receives an answer. -/
lemma Inv.answer {s : RtState fs.toFsSig} {v : View} {n : ℕ} {a : Fallible Reply}
    {w : Multiset ℕ} {tk : Multiset (ℕ × HandleKind × ℕ)}
    (hi : Inv E s { v with lookups := (delivered a).map (Prod.mk n) + v.lookups, vanished := w,
                           took := tk })
    (hw : w.erase n = v.vanished) (htk : v.took ≤ tk) : Inv E (Runtime.answer n a s) v where
  wf := hi.wf
  leased := hi.leased.congr (.refl _) (fun _ => rfl) rfl rfl
  lookedUp := hi.lookedUp.answer rfl rfl rfl rfl rfl
  opens := hi.opens.congr (fun _ => rfl) (fun _ => rfl) rfl rfl
  resolved := hi.resolved.congr (.refl _) (fun _ _ _ hd => hd) rfl
  vanished := by
    have hv : s.hist.vanished = w := hi.vanished
    rw [← hw, ← hv]
    rfl
  handles := ⟨hi.handles.leases, fun x hx => hi.handles.took x (Multiset.mem_of_le htk hx),
    hi.handles.table, hi.handles.fresh, hi.handles.record⟩

/-- The kernel issues a request. -/
lemma Inv.issue {s : RtState fs.toFsSig} {n : ℕ} {req : Request} {F : Multiset Token}
    (hi : Inv E s (view F))
    (hon : E.honest → ∀ ino m, req = .forget ino m → m ≤ s.hist.held.count ino) :
    Inv E (Runtime.issue n req s) (view (Init n req + F)) := by
  cases req with
  | forget ino m =>
    have hview : view (Init n (.forget ino m) + F) =
        { view F with lookups := Multiset.replicate m (n, ino) + (view F).lookups } := by
      have h := view_lookups n (Multiset.replicate m ino) F
      rwa [Multiset.map_replicate, Multiset.map_replicate] at h
    rw [hview]
    exact {
      wf := hi.wf
      leased := hi.leased.congr (.refl _) (fun _ => rfl) rfl rfl
      lookedUp := hi.lookedUp.issue (fun h => hon h ino m rfl) rfl rfl rfl rfl rfl
      opens := hi.opens.congr (fun _ => rfl) (fun _ => rfl) rfl rfl
      resolved := hi.resolved.congr (.refl _) (fun _ _ _ hd => hd) rfl
      vanished := hi.vanished
      handles := hi.handles.congr rfl rfl }
  | _ =>
    change Inv E s (view (0 + F))
    rw [zero_add]
    exact hi

/-- The answer of a request gives its tokens back and leaves its fact behind. -/
lemma Inv.answered {s : RtState fs.toFsSig} {n : ℕ} {req : Request} {a : Fallible Reply}
    {g F : Multiset Token} (hi : Inv E s (view (g + F)))
    (hframe : ∀ x ∈ F, ∃ m, m ≠ n ∧ x.own m) (hpost : Post E n req a g) :
    Inv E (Runtime.answer n a s) (view F) ∧ Fact E n req a (Runtime.answer n a s) := by
  -- the token of a vanished node is owned by its own thread
  have hnot : n ∉ (view F).vanished := by
    intro hm
    obtain ⟨m, hne, hown⟩ := hframe _ (mem_view_vanished hm)
    exact hne hown.symm
  have herase : (view F).vanished.erase n = (view F).vanished := Multiset.erase_of_notMem hnot
  unfold Post at hpost
  split at hpost
  · next k ino fh caller =>
    obtain ⟨hd, hex, hg⟩ := hpost
    rcases hg with ⟨rfl, rfl⟩ | rfl
    · refine ⟨Inv.answer ?_ herase le_rfl, fun _ => hex, ?_⟩
      · simpa [hd] using hi
      · intro k' ino' fh' caller' _
        exact Or.inl rfl
    · rw [view_single] at hi
      refine ⟨Inv.answer (w := (view F).vanished) ?_ herase
        (Multiset.le_cons_self _ (n, k, fh)), fun _ => hex, ?_⟩
      · simpa [hd, View.add] using hi
      · intro k' ino' fh' caller' heq
        cases heq
        exact Or.inr (hi.handles.took _ (Multiset.mem_cons_self _ _))
  · next hreq =>
    have hrel : ∀ k ino fh caller, req = .release k ino fh caller →
        a = fail .EBADF ∨ (n, k, fh) ∈ (Runtime.answer n a s).hist.released := by
      intro k ino fh caller heq
      exact absurd heq (hreq k ino fh caller)
    rcases hpost with ⟨rfl, hex⟩ | ⟨rfl, rfl⟩
    · rw [view_lookups] at hi
      exact ⟨hi.answer herase le_rfl, hex, hrel⟩
    · rw [view_single] at hi
      refine ⟨Inv.answer ?_ (Multiset.erase_cons_head _ _) le_rfl, fun _ => trivial, hrel⟩
      simpa [View.add, delivered, fail] using hi

/-- The fact about an answered request depends on the released handles only. -/
lemma Fact.mono {σ : FsSig} {s s' : RtState σ} {n : ℕ} {req : Request} {a : Fallible Reply}
    (h : Fact E n req a s) (hsub : ∀ x ∈ s.hist.released, x ∈ s'.hist.released) :
    Fact E n req a s' := by
  refine ⟨h.1, ?_⟩
  intro k ino fh caller hreq
  rcases h.2 k ino fh caller hreq with hbad | hm
  · exact Or.inl hbad
  · exact Or.inr (hsub _ hm)

/-! ## History only grows -/

section History

variable {N : Type} {t t' : NodeTable N}

lemma issued_maybeDrop (t : NodeTable N) (id : NodeId) : (t.maybeDrop id).issued = t.issued := by
  rcases maybeDrop_cases t id with heq | ⟨s, _, _, heq⟩ <;> rw [heq]

lemma issued_incr {c : Counter} {id : NodeId} {r : Option (Slot N)}
    (h : t.incr c id = some (r, t')) : t'.issued = t.issued := by
  rcases incr_cases h with ⟨_, _, rfl⟩ | ⟨s, _, _, rfl⟩ <;> rfl

lemma issued_decr (t : NodeTable N) (c : Counter) (m : ℕ) (id : NodeId) :
    (t.decr c m id).issued = t.issued := by
  unfold NodeTable.decr
  rw [issued_maybeDrop]
  split <;> rfl

lemma issued_dropRef (t : NodeTable N) (r : NodeRef N) : (t.dropRef r).issued = t.issued := by
  unfold NodeTable.dropRef
  split
  · split
    · exact issued_decr _ _ _ _
    · exact issued_maybeDrop _ _
  · exact issued_maybeDrop _ _

lemma issued_get {id : NodeId} {r : Option (NodeRef N)} (h : t.get id = some (r, t')) :
    t'.issued = t.issued := by
  rcases Leased.get_cases h with ⟨_, _, rfl⟩ | ⟨s, _, _, hinc⟩
  · rfl
  · exact issued_incr hinc

lemma issued_reparent (t : NodeTable N) (id newParent : NodeId) :
    (t.reparent id newParent).issued = t.issued := by
  unfold NodeTable.reparent
  split <;> rfl

end History

/-- The history that no instruction takes back. -/
structure Grows {σ : FsSig} (s s' : RtState σ) : Prop where
  /-- Issued identities. -/
  issued : s.table.issued <:+ s'.table.issued
  /-- Released handles. -/
  released : ∀ x ∈ s.hist.released, x ∈ s'.hist.released

lemma Grows.refl {σ : FsSig} (s : RtState σ) : Grows s s :=
  ⟨List.suffix_rfl, fun _ hx => hx⟩

lemma Grows.of_eq {σ : FsSig} {s s' : RtState σ} (hi : s'.table.issued = s.table.issued)
    (hr : s'.hist.released = s.hist.released) : Grows s s' :=
  ⟨by rw [hi], fun _ hx => hr ▸ hx⟩

lemma Grows.execFs {σ : FsSig} {s s' : RtState σ} {n : ℕ} {i : FsInstr σ}
    {ch : Option σ.Choice} {r : i.Resp} (he : s.execFs n i ch = some (r, s')) : Grows s s' := by
  cases i with
  | get id =>
    obtain ⟨⟨o, t'⟩, hg, heq⟩ := Option.map_eq_some_iff.mp he
    obtain ⟨_, rfl⟩ := Prod.mk.inj heq
    exact .of_eq (issued_get hg) rfl
  | contains id =>
    obtain ⟨_, rfl⟩ := Prod.mk.inj (Option.some.inj he)
    exact .refl s
  | insert payload parent =>
    obtain ⟨⟨id, t'⟩, hins, heq⟩ := Option.map_eq_some_iff.mp he
    obtain ⟨_, rfl⟩ := Prod.mk.inj heq
    obtain ⟨gen, t₁, _, rfl⟩ := insert_cases hins
    exact ⟨List.suffix_cons _ _, fun _ hx => hx⟩
  | reparent id newParent =>
    obtain ⟨_, rfl⟩ := Prod.mk.inj (Option.some.inj he)
    exact .of_eq (issued_reparent _ _ _) rfl
  | addLink id =>
    obtain ⟨t', hadd, heq⟩ := Option.map_eq_some_iff.mp he
    obtain ⟨_, rfl⟩ := Prod.mk.inj heq
    obtain ⟨⟨o, t₁⟩, hinc, rfl⟩ := Option.map_eq_some_iff.mp hadd
    exact .of_eq (issued_incr hinc) rfl
  | removeLink id =>
    obtain ⟨_, rfl⟩ := Prod.mk.inj (Option.some.inj he)
    exact .of_eq (issued_decr _ _ _ _) rfl
  | dropRef ref =>
    change (if ref.key ∈ s.hist.fsRefs then some ((), _) else none) = some (r, s') at he
    split at he
    · obtain ⟨_, rfl⟩ := Prod.mk.inj (Option.some.inj he)
      exact .of_eq (issued_dropRef _ _) rfl
    · cases he
  | own i =>
    cases ch with
    | none => cases he
    | some ch =>
      obtain ⟨⟨a, fs'⟩, _, heq⟩ := Option.map_eq_some_iff.mp he
      obtain ⟨_, rfl⟩ := Prod.mk.inj heq
      exact .of_eq rfl rfl

lemma Grows.addLookup {σ : FsSig} {s s' : RtState σ} {n : ℕ} {id : NodeId} {r : Option ℕ}
    (he : s.addLookup n id = some (r, s')) : Grows s s' := by
  obtain ⟨⟨o, t'⟩, hadd, heq⟩ := Option.map_eq_some_iff.mp he
  obtain ⟨_, rfl⟩ := Prod.mk.inj heq
  obtain ⟨⟨o', t₁⟩, hinc, heq'⟩ := Option.map_eq_some_iff.mp hadd
  obtain ⟨_, rfl⟩ := Prod.mk.inj heq'
  refine .of_eq (issued_incr hinc) ?_
  dsimp only
  split <;> rfl

/-- No instruction takes history back. -/
lemma Grows.exec {σ : FsSig} {s s' : RtState σ} {n : ℕ} {i : RtInstr σ} {ch : Option σ.Choice}
    {r : i.Resp} (he : s.exec n i ch = some (r, s')) : Grows s s' := by
  cases i with
  | fs i => exact .execFs he
  | grant id | retainLookup id => exact .addLookup he
  | node id | lease id =>
    obtain ⟨⟨o, t'⟩, hg, heq⟩ := Option.map_eq_some_iff.mp he
    obtain ⟨_, rfl⟩ := Prod.mk.inj heq
    exact .of_eq (issued_get hg) rfl
  | dropNode ref =>
    obtain ⟨_, rfl⟩ := Prod.mk.inj (Option.some.inj he)
    exact .of_eq (issued_dropRef _ _) rfl
  | forget ino m | removeOpen ino =>
    obtain ⟨_, rfl⟩ := Prod.mk.inj (Option.some.inj he)
    exact .of_eq (issued_decr _ _ _ _) rfl
  | addOpen ino =>
    obtain ⟨⟨b, t'⟩, hadd, heq⟩ := Option.map_eq_some_iff.mp he
    obtain ⟨_, rfl⟩ := Prod.mk.inj heq
    obtain ⟨⟨o', t₁⟩, hinc, heq'⟩ := Option.map_eq_some_iff.mp hadd
    obtain ⟨_, rfl⟩ := Prod.mk.inj heq'
    exact .of_eq (issued_incr hinc) rfl
  | denote | plusEntry | leak | parentOf | discard | removeHandle =>
    obtain ⟨_, rfl⟩ := Prod.mk.inj (Option.some.inj he)
    exact .of_eq rfl rfl
  | addHandle | findHandle | acquire | deref | dropLease | dropArc | close | drain =>
    obtain ⟨_, _, heq⟩ := Option.map_eq_some_iff.mp he
    obtain ⟨_, rfl⟩ := Prod.mk.inj heq
    exact .of_eq rfl rfl
  | take k arc =>
    obtain ⟨_, _, heq⟩ := Option.map_eq_some_iff.mp he
    obtain ⟨_, rfl⟩ := Prod.mk.inj heq
    exact ⟨List.suffix_rfl, fun x hx => Multiset.mem_cons_of_mem hx⟩

lemma Grows.issue {σ : FsSig} (n : ℕ) (req : Request) (s : RtState σ) :
    Grows s (Runtime.issue n req s) := by
  cases req with
  | forget ino m => exact .of_eq rfl rfl
  | _ => exact .refl s

/-- History grows along runs. -/
lemma Grows.run {allow : Config (service fs) → Action (service fs) → Prop}
    {c c' : Config (service fs)} (hr : Run allow c c') : Grows c.state c'.state := by
  refine Run.state_invariant (P := fun s => Grows c.state s) (.refl _) ?_ ?_ ?_ hr
  · intro n i ch s r s' he h
    have h' := Grows.exec he
    exact ⟨h.issued.trans h'.issued, fun x hx => h'.released x (h.released x hx)⟩
  · intro n req s s' hs h
    obtain rfl := Option.some.inj hs
    have h' := Grows.issue n req s
    exact ⟨h.issued.trans h'.issued, fun x hx => h'.released x (h.released x hx)⟩
  · intro n req a s h
    exact ⟨h.issued, h.released⟩

/-! ## Soundness of the logic -/

/-- The token logic is sound along runs of a well-behaved environment. -/
theorem sound {allow : Config (service fs) → Action (service fs) → Prop}
    (hfs : E.noPanic → fs.NoPanic)
    (hhonest : E.honest → ∀ c a, allow c a → HonestKernel c a)
    (hstable : E.stable → ∀ c a, allow c a → StableNumbers c a) :
    (rtLogic fs E).Sound allow (start fs) where
  own_give := fun hC hg hx => hC.own_give hg _ hx
  own_init := by
    intro n req x hx
    cases req with
    | forget ino m =>
      obtain rfl := Multiset.eq_of_mem_replicate hx
      rfl
    | _ => exact absurd hx (Multiset.notMem_zero x)
  exec := by
    intro c n id req i k ch r s F C _ ht hallow he hC hi
    refine hC.exec he hi ?_
    rintro hst payload parent id' t' rfl hins
    exact hstable hst c _ hallow req payload parent id' t' ⟨id, k, ht⟩ hins
  prog := by
    intro c req _ _
    exact meets_serve hfs req
  issue := by
    intro c req s F _ hallow hs hi
    obtain rfl := Option.some.inj hs
    refine Inv.issue hi ?_
    rintro hon ino m rfl
    exact hhonest hon c _ hallow
  answer := by
    intro c n id req a g F _ _ _ _ hframe hi hpost
    exact Inv.answered hi hframe hpost
  fact_exec := by
    intro n req a m i ch s r s' he hf
    exact Fact.mono hf (Grows.exec he).released
  fact_issue := by
    intro n req a m req' s s' hs hf
    obtain rfl := Option.some.inj hs
    exact Fact.mono hf (Grows.issue m req' s).released
  fact_answer := by
    intro n req a m req' a' s hf
    exact Fact.mono hf fun x hx => hx

/-! ## The start -/

/-- The table of `Runtime::new` is well formed. -/
lemma wf_new : (Runtime.new fs).table.WF := by
  have hslot : ∀ i, (Runtime.new fs).table.slot i =
      if i = NodeId.ROOT then some (rootSlot fs) else none := by
    intro i
    have h := slot_set (NodeTable.new : NodeTable fs.Node) NodeId.ROOT i (rootSlot fs)
    exact h
  have hroot : ∀ i sl, (Runtime.new fs).table.slot i = some sl →
      i = NodeId.ROOT ∧ sl = rootSlot fs := by
    intro i sl hsl
    rw [hslot] at hsl
    split at hsl
    · next h => exact ⟨h, (Option.some.inj hsl).symm⟩
    · cases hsl
  refine ⟨⟨?_, le_rfl, List.nodup_nil, ?_, ?_, ?_, ?_, trivial, ?_, ?_, ?_⟩, ?_⟩
  · intro e he
    cases he
  · intro p hp
    cases hp
  · intro p hp
    cases hp
  · intro i sl hsl
    obtain ⟨rfl, _⟩ := hroot i sl hsl
    exact Nat.one_lt_two
  · intro e he
    cases he
  · intro i sl hsl
    obtain ⟨rfl, rfl⟩ := hroot i sl hsl
    exact ⟨0, rfl, rfl⟩
  · intro p hp
    cases hp
  · intro i sl hsl
    obtain ⟨rfl, rfl⟩ := hroot i sl hsl
    exact Or.inr ⟨rfl, rfl, rfl⟩
  · intro i sl hsl
    obtain ⟨rfl, rfl⟩ := hroot i sl hsl
    rfl

/-- All counters but the link of the root are zero at the start. -/
lemma count_new {c : Counter} (hc : c ≠ .links) (i : NodeId) :
    (Runtime.new fs).table.count c i = 0 := by
  have h := count_set (NodeTable.new : NodeTable fs.Node) c NodeId.ROOT i (rootSlot fs)
  refine Eq.trans h ?_
  split
  · cases c with
    | links => exact absurd rfl hc
    | lookups => rfl
    | opens => rfl
    | leases => rfl
  · rfl

/-- The invariant holds at the start, without tokens. -/
lemma inv_new : Inv E (Runtime.new fs) View.empty where
  wf := wf_new
  leased := by
    refine ⟨rfl, ?_, ?_, fun i => count_new (by decide) i⟩
    · intro x hx
      exact absurd hx (Multiset.notMem_zero x)
    · intro x hx
      exact absurd hx (Multiset.notMem_zero x)
  lookedUp := ⟨rfl, fun _ i => count_new (by decide) i, fun _ => rfl, fun _ _ => rfl⟩
  opens := ⟨rfl, rfl, fun i => count_new (by decide) i⟩
  resolved := ⟨rfl, fun _ x hx => absurd hx (Multiset.notMem_zero x)⟩
  vanished := rfl
  handles := by
    refine ⟨rfl, fun x hx => absurd hx (Multiset.notMem_zero x), ?_, fun _ _ _ => rfl,
      fun _ _ => rfl⟩
    intro k fh arc harc
    cases harc

/-- The token logic holds in every configuration of every run of a well-behaved environment. -/
theorem holds_of_run {allow : Config (service fs) → Action (service fs) → Prop}
    (hfs : E.noPanic → fs.NoPanic)
    (hhonest : E.honest → ∀ c a, allow c a → HonestKernel c a)
    (hstable : E.stable → ∀ c a, allow c a → StableNumbers c a) {c : Config (service fs)}
    (hr : Run allow (start fs) c) : (rtLogic fs E).Holds c :=
  Logic.holds_of_run (sound hfs hhonest hstable) (Logic.holds_nil inv_new) hr

/-- Nothing is assumed about the environment. -/
def Env.any : Env := ⟨False, False, False⟩

/-- The token logic without assumptions about the environment. -/
lemma holds_any {allow : Config (service fs) → Action (service fs) → Prop}
    {c : Config (service fs)} (hr : Run allow (start fs) c) : (rtLogic fs Env.any).Holds c :=
  holds_of_run False.elim False.elim False.elim hr

end TypedFuse
