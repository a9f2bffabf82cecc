import Mathlib.Logic.Hydra
import TypedFuse.Conc.Logic

/-!
# Lock disciplines

A `Discipline` says what a thread holds, how its instructions change that, and which instructions a
thread that holds something may perform at all.  It is kept by a program if every path through the
program respects it and ends with nothing held (`Keeps`), and along every run each thread holds
something of which the invariant is true (`Sound.kept`).

If the instructions that wait have levels, and whoever makes an instruction wait performs only
instructions of a higher level until it lets go, no threads wait for each other in a cycle
(`acyclic`), and every thread waits at most for one that can move or that waits for something which
no thread holds (`exists_mover`).
-/

namespace Conc

namespace Service

variable {S : Service} {α β : Type}

/-! ## Disciplines -/

/-- What the threads of a service hold. -/
structure Discipline (S : Service) where
  /-- What a thread holds. -/
  Held : Type
  /-- Nothing is held. -/
  free : Held
  /-- What is held after an instruction; undefined if the instruction is not allowed. -/
  after : (i : S.Instr) → S.Resp i → Held → Option Held
  /-- What the holdings of all threads together mean. -/
  inv : S.State → Multiset Held → Prop

namespace Discipline

variable {D : Discipline S}

/-- The predicate transformer of an instruction: it is allowed, whatever the answer is. -/
def spec (D : Discipline S) (i : S.Instr) (h : D.Held) (K : S.Resp i → D.Held → Prop) : Prop :=
  ∀ r, ∃ h', D.after i r h = some h' ∧ K r h'

lemma mono_spec (D : Discipline S) : Prog.MonoSpec D.spec := by
  intro i h K K' hK hspec r
  obtain ⟨h', hafter, hk⟩ := hspec r
  exact ⟨h', hafter, hK r h' hk⟩

/-- A program that may be run by a thread that holds `h`, and what the thread holds after it. -/
def Keeps (D : Discipline S) (h : D.Held) (p : Prog S.Instr S.Resp α)
    (Q : α → D.Held → Prop) : Prop :=
  p.wp D.spec Q h

namespace Keeps

variable {h : D.Held}

lemma ret {a : α} {Q : α → D.Held → Prop} (hQ : Q a h) : D.Keeps h (.ret a) Q :=
  hQ

lemma mono {p : Prog S.Instr S.Resp α} {Q Q' : α → D.Held → Prop} (hp : D.Keeps h p Q)
    (hQ : ∀ a h', Q a h' → Q' a h') : D.Keeps h p Q' :=
  Prog.wp_mono D.mono_spec hQ hp

lemma bind {p : Prog S.Instr S.Resp α} {f : α → Prog S.Instr S.Resp β}
    {Q : α → D.Held → Prop} {Q' : β → D.Held → Prop} (hp : D.Keeps h p Q)
    (hf : ∀ a h', Q a h' → D.Keeps h' (f a) Q') :
    D.Keeps h (p >>= f) Q' :=
  Prog.wp_bind.mpr (hp.mono hf)

/-- One instruction, then the rest. -/
lemma step {i : S.Instr} {f : S.Resp i → Prog S.Instr S.Resp α} {Q : α → D.Held → Prop}
    (hf : ∀ r, ∃ h', D.after i r h = some h' ∧ D.Keeps h' (f r) Q) :
    D.Keeps h (Prog.perform i >>= f) Q :=
  hf

/-- An instruction that takes and gives back nothing, then the rest. -/
lemma same {i : S.Instr} {f : S.Resp i → Prog S.Instr S.Resp α} {Q : α → D.Held → Prop}
    (hi : ∀ r, D.after i r h = some h) (hf : ∀ r, D.Keeps h (f r) Q) :
    D.Keeps h (Prog.perform i >>= f) Q :=
  fun r => ⟨h, hi r, hf r⟩

/-- Both branches of a conditional. -/
lemma ite {c : Prop} {_ : Decidable c} {p q : Prog S.Instr S.Resp α} {Q : α → D.Held → Prop}
    (hp : D.Keeps h p Q) (hq : D.Keeps h q Q) : D.Keeps h (if c then p else q) Q := by
  split
  · exact hp
  · exact hq

end Keeps

/-- A running thread holds something with which it may run the rest of its program, and lets go of
everything; an answered one holds nothing. -/
def Has (D : Discipline S) (t : Thread S) (h : D.Held) : Prop :=
  match t.phase with
  | .running p => D.Keeps h p fun _ h' => h' = D.free
  | .done _ => h = D.free

/-- Every thread holds something, and together they satisfy the invariant. -/
def Kept (D : Discipline S) (c : Config S) : Prop :=
  ∃ gs : List (Multiset D.Held),
    List.Forall₂ (fun t g => ∃ h, g = {h} ∧ D.Has t h) c.threads gs ∧ D.inv c.state gs.sum

/-- What a discipline has to satisfy. -/
structure Sound (D : Discipline S) : Prop where
  /-- An instruction that is allowed keeps the invariant. -/
  exec : ∀ {n i ch r s s' h h' M}, S.exec n i ch s = some (r, s') → D.after i r h = some h' →
    D.inv s (h ::ₘ M) → D.inv s' (h' ::ₘ M)
  /-- A new thread holds nothing. -/
  issue : ∀ {n req s s' M}, S.issue n req s = some s' → D.inv s M → D.inv s' (D.free ::ₘ M)
  /-- An answer changes nothing. -/
  answer : ∀ {n req a s M}, D.inv s M → D.inv (S.answer n req a s) M
  /-- The programs of all requests respect the discipline. -/
  prog : ∀ req, D.Keeps D.free (S.prog req) fun _ h => h = D.free

/-- A sound discipline is kept along every run. -/
theorem Sound.kept {allow : Config S → Action S → Prop} {c₀ c : Config S} (hs : D.Sound)
    (h₀ : D.Kept c₀) (hr : Run allow c₀ c) : D.Kept c := by
  refine Run.invariant h₀ ?_ hr
  rintro c a c' _ _ hn ⟨gs, hhas, hinv⟩
  cases a with
  | issue req =>
    obtain ⟨s, hissue, rfl⟩ := next_issue hn
    refine ⟨gs ++ [{D.free}], List.rel_append hhas (.cons ⟨D.free, rfl, hs.prog req⟩ .nil),
      ?_⟩
    have hnew := hs.issue hissue hinv
    rw [List.sum_append, List.sum_singleton, add_comm]
    exact hnew
  | step n ch =>
    obtain ⟨id, req, i, k, r, s, ht, he, rfl⟩ := next_step hn
    obtain ⟨g, f, ⟨h, rfl, hrun⟩, hsum, _, hset⟩ := Logic.exists_frame hhas ht
    obtain ⟨h', hafter, hk⟩ := hrun r
    obtain ⟨gs', hgs', hsum'⟩ := hset ⟨id, req, .running (k r)⟩ {h'} ⟨h', rfl, hk⟩
    refine ⟨gs', hgs', ?_⟩
    rw [hsum] at hinv
    rw [hsum']
    exact hs.exec he hafter hinv
  | answer n =>
    obtain ⟨id, req, a, ht, rfl⟩ := next_answer hn
    obtain ⟨g, f, ⟨h, rfl, hrun⟩, hsum, _, hset⟩ := Logic.exists_frame hhas ht
    obtain ⟨gs', hgs', hsum'⟩ := hset ⟨id, req, .done a⟩ {h} ⟨h, rfl, hrun⟩
    refine ⟨gs', hgs', ?_⟩
    rw [hsum', ← hsum]
    exact hs.answer hinv

/-- What is held is held by a thread. -/
lemma exists_holder {c : Config S} {gs : List (Multiset D.Held)}
    (hhas : List.Forall₂ (fun t g => ∃ h, g = {h} ∧ D.Has t h) c.threads gs) {h : D.Held}
    (hh : h ∈ gs.sum) : ∃ (n : ℕ) (t : Thread S), c.threads[n]? = some t ∧ D.Has t h := by
  obtain ⟨n, t, g, ht, ⟨h', rfl, hhas'⟩, hmem⟩ := Logic.exists_owner hhas hh
  obtain rfl := Multiset.mem_singleton.mp hmem
  exact ⟨n, t, ht, hhas'⟩

end Discipline

/-! ## Who waits for whom -/

/-- A thread can take a step or deliver its answer. -/
def Config.Moves (c : Config S) (n : ℕ) : Prop :=
  (∃ ch c', c.next (.step n ch) = some c') ∨ ∃ c', c.next (.answer n) = some c'

/-- A running thread that cannot move waits in an instruction. -/
lemma Config.waits_of_not_moves {c : Config S} {n id : ℕ} {req : S.Req}
    {p : Prog S.Instr S.Resp S.Ans} (h : ¬ c.Moves n)
    (ht : c.threads[n]? = some ⟨id, req, .running p⟩) :
    ∃ i k, p = .act i k ∧ ∀ ch, S.exec id i ch c.state = none := by
  cases p with
  | ret a =>
    refine absurd
      (Or.inr ⟨⟨S.answer id req a c.state, c.threads.set n ⟨id, req, .done a⟩⟩, ?_⟩) h
    simp only [Config.next, ht]
  | act i k =>
    refine ⟨i, k, rfl, ?_⟩
    intro ch
    by_contra hne
    obtain ⟨⟨r, s⟩, he⟩ := Option.ne_none_iff_exists'.mp hne
    refine h (Or.inl ⟨ch, ⟨s, c.threads.set n ⟨id, req, .running (k r)⟩⟩, ?_⟩)
    simp only [Config.next, ht, he]

/-- Thread `n` waits in an instruction that is blocked by what thread `m` holds. -/
def Discipline.WaitsFor (D : Discipline S) (blocks : D.Held → S.Instr → Prop) (c : Config S)
    (n m : ℕ) : Prop :=
  ∃ req i t h, c.At n req i ∧ c.threads[m]? = some t ∧ D.Has t h ∧ blocks h i

/-- Instructions with levels: whoever holds what an instruction waits for only performs instructions
of a higher level, until it lets go. -/
structure Discipline.Ordered (D : Discipline S) (top : ℕ) (level : S.Instr → ℕ)
    (blocks : D.Held → S.Instr → Prop) : Prop where
  /-- There is a highest level. -/
  level_le : ∀ i, level i ≤ top
  /-- Nobody waits for a thread that holds nothing. -/
  free : ∀ i, ¬ blocks D.free i
  /-- The holder does not wait for anything of the same or a lower level. -/
  ascends : ∀ h i j K, blocks h i → D.spec j h K → level i < level j

namespace Discipline.Ordered

variable {D : Discipline S} {top : ℕ} {level : S.Instr → ℕ}
    {blocks : D.Held → S.Instr → Prop}
  {c : Config S}

/-- A thread that holds what an instruction waits for is running. -/
lemma running (hord : D.Ordered top level blocks) {t : Thread S} {h : D.Held} {i : S.Instr}
    (hhas : D.Has t h) (hblocks : blocks h i) :
    ∃ j k, t.phase = .running (.act j k) ∧ level i < level j := by
  obtain ⟨id, req, phase⟩ := t
  cases phase with
  | done a =>
    obtain rfl : h = D.free := hhas
    exact absurd hblocks (hord.free i)
  | running p =>
    cases p with
    | ret a =>
      obtain rfl : h = D.free := hhas
      exact absurd hblocks (hord.free i)
    | act j k => exact ⟨j, k, rfl, hord.ascends h i j _ hblocks hhas⟩

/-- Who waits for a thread waits at a lower level. -/
lemma level_lt (hord : D.Ordered top level blocks) {n m : ℕ} (h : D.WaitsFor blocks c n m) :
    ∃ req i req' j, c.At n req i ∧ c.At m req' j ∧ level i < level j := by
  obtain ⟨req, i, ⟨id, req', phase⟩, held, hat, ht, hhas, hblocks⟩ := h
  obtain ⟨j, k, hphase, hlt⟩ := hord.running hhas hblocks
  obtain rfl : phase = _ := hphase
  exact ⟨req, i, req', j, hat, ⟨id, k, ht⟩, hlt⟩

lemma level_lt_of_transGen (hord : D.Ordered top level blocks) {n m : ℕ}
    (h : Relation.TransGen (D.WaitsFor blocks c) n m) :
    ∃ req i req' j, c.At n req i ∧ c.At m req' j ∧ level i < level j := by
  induction h with
  | single h => exact hord.level_lt h
  | tail _ h ih =>
    obtain ⟨req, i, req', j, hn, hm, hlt⟩ := ih
    obtain ⟨req₁, i₁, req₂, j₂, hm', hl, hlt'⟩ := hord.level_lt h
    obtain ⟨_, _, ht⟩ := hm
    obtain ⟨_, _, ht'⟩ := hm'
    cases ht.symm.trans ht'
    exact ⟨req, i, req₂, j₂, hn, hl, hlt.trans hlt'⟩

/-- No threads wait for each other in a cycle. -/
theorem acyclic (hord : D.Ordered top level blocks) (n : ℕ) :
    ¬ Relation.TransGen (D.WaitsFor blocks c) n n := by
  intro h
  obtain ⟨req, i, req', j, ⟨_, _, ht⟩, ⟨_, _, ht'⟩, hlt⟩ := hord.level_lt_of_transGen h
  cases ht.symm.trans ht'
  exact lt_irrefl _ hlt

/-- Every thread that is not answered waits, possibly through others, for a thread that can move or
that waits for something which no thread holds. -/
theorem exists_mover (hord : D.Ordered top level blocks) (hkept : D.Kept c)
    {external : ℕ → S.Instr → Prop}
    (hwait : ∀ {n id : ℕ} {req : S.Req} {i : S.Instr}
      {k : S.Resp i → Prog S.Instr S.Resp S.Ans}
      {M : Multiset D.Held}, c.threads[n]? = some ⟨id, req, .running (.act i k)⟩ →
      D.inv c.state M → (∃ h K, D.spec i h K) → (∀ ch, S.exec id i ch c.state = none) →
      external id i ∨ ∃ h ∈ M, blocks h i)
    {n id : ℕ} {req : S.Req} {p : Prog S.Instr S.Resp S.Ans}
    (ht : c.threads[n]? = some ⟨id, req, .running p⟩) :
    ∃ m, Relation.ReflTransGen (D.WaitsFor blocks c) n m ∧
      (c.Moves m ∨ ∃ id' req' i k, c.threads[m]? = some ⟨id', req', .running (.act i k)⟩ ∧
        external id' i) := by
  obtain ⟨gs, hhas, hinv⟩ := hkept
  -- a thread that waits for a thread waits for one at a higher level
  have hclimb : ∀ (d n id : ℕ) (req : S.Req) (i : S.Instr)
      (k : S.Resp i → Prog S.Instr S.Resp S.Ans),
      c.threads[n]? = some ⟨id, req, .running (.act i k)⟩ → top - level i = d →
      ∃ m, Relation.ReflTransGen (D.WaitsFor blocks c) n m ∧
        (c.Moves m ∨
          ∃ id' req' i k, c.threads[m]? = some ⟨id', req', .running (.act i k)⟩ ∧
            external id' i) := by
    intro d
    induction d using Nat.strong_induction_on with
    | _ d ih =>
      intro n id req i k ht hd
      by_cases hmove : c.Moves n
      · exact ⟨n, .refl, Or.inl hmove⟩
      obtain ⟨i', k', hp, hnone⟩ := Config.waits_of_not_moves hmove ht
      cases hp
      obtain ⟨_, _, ⟨held, _, hspec⟩, _⟩ := Logic.exists_frame hhas ht
      rcases hwait ht hinv ⟨held, _, hspec⟩ hnone with hext | ⟨h, hmem, hblocks⟩
      · exact ⟨n, .refl, Or.inr ⟨id, req, i, k, ht, hext⟩⟩
      · obtain ⟨m, ⟨id', req', phase⟩, ht', hheld⟩ := Discipline.exists_holder hhas hmem
        obtain ⟨j, k', hphase, hlt⟩ := hord.running hheld hblocks
        obtain rfl : phase = _ := hphase
        have hle := hord.level_le j
        obtain ⟨l, hchain, hl⟩ := ih (top - level j) (by omega) m id' req' j k' ht' rfl
        exact ⟨l, .head ⟨req, i, _, h, ⟨id, k, ht⟩, ht', hheld, hblocks⟩ hchain, hl⟩
  cases p with
  | act i k => exact hclimb _ n id req i k ht rfl
  | ret a =>
    refine ⟨n, .refl, Or.inl ?_⟩
    by_contra hmove
    obtain ⟨i, k, hp, _⟩ := Config.waits_of_not_moves hmove ht
    cases hp

end Discipline.Ordered

/-! ## Serving what was issued -/

/-- A step or an answer. -/
def Serving (_ : Config S) : Action S → Prop
  | .issue _ => False
  | _ => True

/-- How a request gets on. -/
inductive Phase.Next : Phase S → Phase S → Prop where
  | step (i : S.Instr) (k : S.Resp i → Prog S.Instr S.Resp S.Ans) (r : S.Resp i) :
      Next (.running (k r)) (.running (.act i k))
  | answer (a : S.Ans) : Next (.done a) (.running (.ret a))

/-- A request does not go on forever. -/
lemma Phase.wellFounded_next : WellFounded (Phase.Next (S := S)) := by
  have hdone : ∀ a : S.Ans, Acc (Phase.Next (S := S)) (.done a) :=
    fun a => ⟨_, fun _ h => nomatch h⟩
  refine ⟨?_⟩
  intro ph
  cases ph with
  | done a => exact hdone a
  | running p =>
    induction p with
    | ret a =>
      refine ⟨_, fun _ h => ?_⟩
      cases h
      exact hdone a
    | act i k ih =>
      refine ⟨_, fun _ h => ?_⟩
      cases h with
      | step _ _ r => exact ih r

/-- How far all requests got. -/
def Config.phases (c : Config S) : Multiset (Phase S) :=
  ↑(c.threads.map Thread.phase)

/-- Replacing an element of a list replaces it in the multiset. -/
lemma map_set_add {A B : Type} (f : A → B) {l : List A} {n : ℕ} {x : A}
    (h : l[n]? = some x) (y : A) :
    (↑((l.set n y).map f) : Multiset B) + {f x} = ↑(l.map f) + {f y} := by
  induction l generalizing n with
  | nil => cases h
  | cons a l ih =>
    cases n with
    | zero =>
      obtain rfl : a = x := Option.some.inj h
      simp only [List.set_cons_zero, List.map_cons, ← Multiset.cons_coe,
        ← Multiset.singleton_add]
      abel
    | succ n =>
      have hrec := ih (n := n) h
      simp only [List.set_cons_succ, List.map_cons, ← Multiset.cons_coe, Multiset.cons_add, hrec]

/-- A step or an answer gets one request on. -/
lemma cutExpand_of_next {c c' : Config S} {a : Action S} (ha : Serving c a)
    (hn : c.next a = some c') : Relation.CutExpand Phase.Next c'.phases c.phases := by
  cases a with
  | issue req => exact ha.elim
  | step n ch =>
    obtain ⟨id, req, i, k, r, s, ht, _, rfl⟩ := next_step hn
    have hset := map_set_add Thread.phase ht ⟨id, req, .running (k r)⟩
    refine ⟨_, _, ?_, hset⟩
    intro ph hph
    obtain rfl := Multiset.mem_singleton.mp hph
    exact .step i k r
  | answer n =>
    obtain ⟨id, req, a, ht, rfl⟩ := next_answer hn
    have hset := map_set_add Thread.phase ht ⟨id, req, .done a⟩
    refine ⟨_, _, ?_, hset⟩
    intro ph hph
    obtain rfl := Multiset.mem_singleton.mp hph
    exact .answer a

/-- Without new requests, every configuration gets to one in which nothing moves. -/
theorem exists_settled (c : Config S) : ∃ c', Run Serving c c' ∧ ∀ n, ¬ c'.Moves n := by
  have hwf := InvImage.wf (Config.phases (S := S)) (Phase.wellFounded_next (S := S)).cutExpand
  induction c using hwf.induction with
  | _ c ih =>
    by_cases hmove : ∃ a c', Serving c a ∧ c.next a = some c'
    · obtain ⟨a, c₁, ha, hn⟩ := hmove
      obtain ⟨c', hr, hc'⟩ := ih c₁ (cutExpand_of_next ha hn)
      exact ⟨c', (Run.tail a .refl ha hn).trans hr, hc'⟩
    · refine ⟨c, .refl, ?_⟩
      rintro n (⟨ch, c', hn⟩ | ⟨c', hn⟩)
      · exact hmove ⟨.step n ch, c', trivial, hn⟩
      · exact hmove ⟨.answer n, c', trivial, hn⟩

/-- The threads of a configuration do not wait in a cycle; every thread that is not answered waits,
possibly through others, for one that can move or is held up for another reason; and without new
requests all threads are answered but those that wait for one that is held up. -/
structure Config.Live (waits : Config S → ℕ → ℕ → Prop) (held : Config S → ℕ → Prop)
    (c : Config S) : Prop where
  acyclic : ∀ n, ¬ Relation.TransGen (waits c) n n
  mover : ∀ (n : ℕ) (t : Thread S) (p : Prog S.Instr S.Resp S.Ans), c.threads[n]? = some t →
    t.phase = .running p → ∃ m, Relation.ReflTransGen (waits c) n m ∧ (c.Moves m ∨ held c m)
  served : ∃ c', Run Serving c c' ∧
    ∀ (n : ℕ) (t : Thread S) (p : Prog S.Instr S.Resp S.Ans), c'.threads[n]? = some t →
      t.phase = .running p → ∃ m, Relation.ReflTransGen (waits c') n m ∧ held c' m

/-- What has no cycles and always someone to wait for is live. -/
lemma Config.Live.of_mover {waits : Config S → ℕ → ℕ → Prop}
    {held : Config S → ℕ → Prop} {c : Config S}
    (hacyclic : ∀ n, ¬ Relation.TransGen (waits c) n n)
    (hmover : ∀ c', Run Serving c c' →
      ∀ (n : ℕ) (t : Thread S) (p : Prog S.Instr S.Resp S.Ans),
      c'.threads[n]? = some t → t.phase = .running p →
      ∃ m, Relation.ReflTransGen (waits c') n m ∧ (c'.Moves m ∨ held c' m)) :
    c.Live waits held where
  acyclic := hacyclic
  mover := hmover c .refl
  served := by
    obtain ⟨c', hr, hstill⟩ := exists_settled c
    refine ⟨c', hr, ?_⟩
    intro n t p ht hp
    obtain ⟨m, hchain, hmove | hheld⟩ := hmover c' hr n t p ht hp
    · exact absurd hmove (hstill m)
    · exact ⟨m, hchain, hheld⟩

end Service

end Conc
