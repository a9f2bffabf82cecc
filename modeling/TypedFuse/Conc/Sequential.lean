import TypedFuse.Conc.Service

/-!
# Requests that are served alone

A thread that runs alone performs one instruction after the other in a state nobody else touches.
`Alone` is the big-step semantics of this, `aloneSpec` the predicate transformer for which weakest
preconditions over the shared state say the same (`alone_iff_wp`), and `Serves` is a whole request
from its issue to its answer, which is a run of the service in the sense of `Run` (`Serves.run`).
`Yields` says in addition that the program is never left waiting.
-/

namespace Conc

namespace Service

variable {S : Service} {α β : Type}

/-- Thread `n` runs a program alone from one state to another, with a result. -/
inductive Alone (S : Service) (n : ℕ) :
    Prog S.Instr S.Resp α → S.State → α → S.State → Prop where
  /-- The program has returned. -/
  | ret (a : α) (s : S.State) : Alone S n (.ret a) s a s
  /-- One instruction, then the rest. -/
  | act {i : S.Instr} {k : S.Resp i → Prog S.Instr S.Resp α} {ch : S.Choice}
      {s s₁ s₂ : S.State} {r : S.Resp i} {a : α} :
      S.exec n i ch s = some (r, s₁) → Alone S n (k r) s₁ a s₂ →
      Alone S n (.act i k) s a s₂

/-- A program that runs alone returns what it can return. -/
lemma Alone.returns {n : ℕ} {p : Prog S.Instr S.Resp α} {s s' : S.State} {a : α}
    {P : α → Prop} (h : Alone S n p s a s') (hp : p.Returns P) : P a := by
  induction h with
  | ret a s => exact hp
  | act _ _ ih => exact ih (hp _)

/-- A program that has returned. -/
lemma alone_ret {n : ℕ} {s s' : S.State} {a b : α} :
    Alone S n (.ret a) s b s' ↔ b = a ∧ s' = s := by
  constructor
  · intro h
    cases h
    exact ⟨rfl, rfl⟩
  · rintro ⟨rfl, rfl⟩
    exact .ret _ _

/-- The predicate transformer of an instruction of a thread that runs alone. -/
def aloneSpec (S : Service) (n : ℕ) (i : S.Instr) (s : S.State)
    (K : S.Resp i → S.State → Prop) : Prop :=
  ∀ ch r s', S.exec n i ch s = some (r, s') → K r s'

/-- Whatever a program of thread `n` does alone from `s`, it ends in `Q`. -/
def Ensures (S : Service) (n : ℕ) (s : S.State) (p : Prog S.Instr S.Resp α)
    (Q : α → S.State → Prop) : Prop :=
  p.wp (S.aloneSpec n) Q s

lemma mono_aloneSpec (n : ℕ) : Prog.MonoSpec (S.aloneSpec n) := by
  intro i s K K' hK h ch r s' he
  exact hK r s' (h ch r s' he)

/-- Weakest preconditions are about what a program does alone. -/
theorem alone_iff_wp {n : ℕ} {s : S.State} {p : Prog S.Instr S.Resp α}
    {Q : α → S.State → Prop} :
    S.Ensures n s p Q ↔ ∀ a s', Alone S n p s a s' → Q a s' := by
  constructor
  · intro h a s' hp
    induction hp with
    | ret a s => exact h
    | act he _ ih => exact ih (h _ _ _ he)
  · intro h
    induction p generalizing s with
    | ret a => exact h a s (.ret a s)
    | act i k ih => exact fun ch r s₁ he => ih r fun a s' hk => h a s' (.act he hk)

namespace Ensures

variable {n : ℕ} {s : S.State}

lemma ret {a : α} {Q : α → S.State → Prop} (h : Q a s) : S.Ensures n s (.ret a) Q := h

lemma perform {i : S.Instr} {Q : S.Resp i → S.State → Prop}
    (h : ∀ ch r s', S.exec n i ch s = some (r, s') → Q r s') :
    S.Ensures n s (Prog.perform i) Q := h

lemma mono {p : Prog S.Instr S.Resp α} {Q Q' : α → S.State → Prop} (h : S.Ensures n s p Q)
    (hQ : ∀ a s', Q a s' → Q' a s') : S.Ensures n s p Q' :=
  Prog.wp_mono (mono_aloneSpec n) hQ h

lemma bind {p : Prog S.Instr S.Resp α} {f : α → Prog S.Instr S.Resp β}
    {Q : α → S.State → Prop} {Q' : β → S.State → Prop} (h : S.Ensures n s p Q)
    (hf : ∀ a s', Q a s' → S.Ensures n s' (f a) Q') : S.Ensures n s (p >>= f) Q' :=
  Prog.wp_bind.mpr (h.mono hf)

/-- One instruction, then the rest. -/
lemma step {i : S.Instr} {f : S.Resp i → Prog S.Instr S.Resp β} {Q : β → S.State → Prop}
    (h : ∀ ch r s', S.exec n i ch s = some (r, s') → S.Ensures n s' (f r) Q) :
    S.Ensures n s (Prog.perform i >>= f) Q := h

/-- What a program can return is known of what it ends with. -/
lemma returns {p : Prog S.Instr S.Resp α} {Q : α → S.State → Prop} {P : α → Prop}
    (h : S.Ensures n s p Q) (hp : p.Returns P) : S.Ensures n s p fun a s' => P a ∧ Q a s' := by
  induction p generalizing s with
  | ret a => exact ⟨hp, h⟩
  | act i k ih => exact fun ch r s' he => ih r (h ch r s' he) (hp r)

/-- What a program ends with is what it does alone. -/
lemma alone {p : Prog S.Instr S.Resp α} {Q : α → S.State → Prop} (h : S.Ensures n s p Q) :
    S.Ensures n s p fun a s' => Q a s' ∧ Alone S n p s a s' := by
  refine alone_iff_wp.mpr ?_
  intro a s' hp
  exact ⟨alone_iff_wp.mp h a s' hp, hp⟩

/-- A property that the handler of every instruction keeps is kept by a handled program. -/
lemma handle {I τ : Type} {R : I → Type} {h : (i : I) → τ → Prog S.Instr S.Resp (R i × τ)}
    {K : τ → S.State → Prop}
    (hstep : ∀ i acc s, K acc s → S.Ensures n s (h i acc) fun r s' => K r.2 s')
    (p : Prog I R α) {acc : τ} (hs : K acc s) :
    S.Ensures n s (p.handle h acc) fun r s' => K r.2 s' := by
  induction p generalizing acc s with
  | ret a => exact hs
  | act i k ih => exact (hstep i acc s hs).bind fun r s' hr => ih r.1 hr

end Ensures

/-! ## Programs that return -/

/-- The predicate transformer of an instruction of a thread that runs alone and, if `must` holds,
does not have to wait. -/
def promptSpec (S : Service) (must : Prop) (n : ℕ) (i : S.Instr) (s : S.State)
    (K : S.Resp i → S.State → Prop) : Prop :=
  (must → ∃ ch r s', S.exec n i ch s = some (r, s')) ∧ S.aloneSpec n i s K

/-- Whatever a program of thread `n` does alone from `s`, it ends in `Q`, and if `must` holds, it
does end. -/
def Yields (S : Service) (must : Prop) (n : ℕ) (s : S.State) (p : Prog S.Instr S.Resp α)
    (Q : α → S.State → Prop) : Prop :=
  p.wp (S.promptSpec must n) Q s

namespace Yields

variable {must : Prop} {n : ℕ} {s : S.State}

lemma ret {a : α} {Q : α → S.State → Prop} (h : Q a s) : S.Yields must n s (.ret a) Q := h

lemma mono {p : Prog S.Instr S.Resp α} {Q Q' : α → S.State → Prop} (h : S.Yields must n s p Q)
    (hQ : ∀ a s', Q a s' → Q' a s') : S.Yields must n s p Q' := by
  refine Prog.wp_mono ?_ hQ h
  intro i s K K' hK hspec
  exact ⟨hspec.1, mono_aloneSpec n i s K K' hK hspec.2⟩

lemma bind {p : Prog S.Instr S.Resp α} {f : α → Prog S.Instr S.Resp β}
    {Q : α → S.State → Prop} {Q' : β → S.State → Prop} (h : S.Yields must n s p Q)
    (hf : ∀ a s', Q a s' → S.Yields must n s' (f a) Q') : S.Yields must n s (p >>= f) Q' :=
  Prog.wp_bind.mpr (h.mono hf)

/-- One instruction, then the rest. -/
lemma step {i : S.Instr} {f : S.Resp i → Prog S.Instr S.Resp β} {Q : β → S.State → Prop}
    (hgo : must → ∃ ch r s', S.exec n i ch s = some (r, s'))
    (h : ∀ ch r s', S.exec n i ch s = some (r, s') → S.Yields must n s' (f r) Q) :
    S.Yields must n s (Prog.perform i >>= f) Q :=
  ⟨hgo, h⟩

/-- A branch that is taken. -/
lemma ite {c : Prop} [Decidable c] {p q : Prog S.Instr S.Resp α}
    {Q : α → S.State → Prop} (hc : c) (hp : S.Yields must n s p Q) :
    S.Yields must n s (if c then p else q) Q := by
  rw [if_pos hc]
  exact hp

/-- What a program that runs alone ends with. -/
lemma ensures {p : Prog S.Instr S.Resp α} {Q : α → S.State → Prop}
    (h : S.Yields must n s p Q) :
    S.Ensures n s p Q := by
  induction p generalizing s with
  | ret a => exact h
  | act i k ih => exact fun ch r s' he => ih r (h.2 ch r s' he)

/-- A program that must end can be run to its end. -/
lemma alone {p : Prog S.Instr S.Resp α} {Q : α → S.State → Prop} (h : S.Yields must n s p Q)
    (hmust : must) : ∃ a s', Alone S n p s a s' ∧ Q a s' := by
  induction p generalizing s with
  | ret a => exact ⟨a, s, .ret a s, h⟩
  | act i k ih =>
    obtain ⟨ch, r, s₁, he⟩ := h.1 hmust
    obtain ⟨a, s', hk, hQ⟩ := ih r (h.2 ch r s₁ he)
    exact ⟨a, s', .act he hk, hQ⟩

end Yields

/-! ## Steps under a condition -/

/-- The predicate transformer of an instruction of a thread that runs alone and takes only steps
that meet a condition. -/
def condSpec (S : Service) (ok : S.Instr → S.State → Prop) (n : ℕ) (i : S.Instr) (s : S.State)
    (K : S.Resp i → S.State → Prop) : Prop :=
  ok i s → S.aloneSpec n i s K

/-- Whatever a program of thread `n` does alone from `s`, it ends in `Q` if all of its steps meet
the condition. -/
def EnsuresIf (S : Service) (ok : S.Instr → S.State → Prop) (n : ℕ) (s : S.State)
    (p : Prog S.Instr S.Resp α) (Q : α → S.State → Prop) : Prop :=
  p.wp (S.condSpec ok n) Q s

namespace EnsuresIf

variable {ok : S.Instr → S.State → Prop} {n : ℕ} {s : S.State}

lemma mono {p : Prog S.Instr S.Resp α} {Q Q' : α → S.State → Prop}
    (h : S.EnsuresIf ok n s p Q) (hQ : ∀ a s', Q a s' → Q' a s') :
    S.EnsuresIf ok n s p Q' := by
  refine Prog.wp_mono ?_ hQ h
  intro i s K K' hK hspec hi
  exact mono_aloneSpec n i s K K' hK (hspec hi)

lemma bind {p : Prog S.Instr S.Resp α} {f : α → Prog S.Instr S.Resp β}
    {Q : α → S.State → Prop} {Q' : β → S.State → Prop} (h : S.EnsuresIf ok n s p Q)
    (hf : ∀ a s', Q a s' → S.EnsuresIf ok n s' (f a) Q') : S.EnsuresIf ok n s (p >>= f) Q' :=
  Prog.wp_bind.mpr (h.mono hf)

/-- A single instruction. -/
lemma perform {i : S.Instr} {Q : S.Resp i → S.State → Prop}
    (h : ok i s → ∀ ch r s', S.exec n i ch s = some (r, s') → Q r s') :
    S.EnsuresIf ok n s (Prog.perform i) Q := h

/-- An instruction, then the rest. -/
lemma step {i : S.Instr} {f : S.Resp i → Prog S.Instr S.Resp α} {Q : α → S.State → Prop}
    (h : ok i s → ∀ ch r s', S.exec n i ch s = some (r, s') → S.EnsuresIf ok n s' (f r) Q) :
    S.EnsuresIf ok n s (Prog.perform i >>= f) Q := by
  refine bind (perform h) ?_
  intro r s' hr
  exact hr

/-- What is ensured under no condition is ensured. -/
lemma of_ensures {p : Prog S.Instr S.Resp α} {Q : α → S.State → Prop}
    (h : S.Ensures n s p Q) :
    S.EnsuresIf ok n s p Q := by
  induction p generalizing s with
  | ret a => exact h
  | act i k ih => exact fun _ ch r s' he => ih r (h ch r s' he)

/-- The condition that every step meets is none. -/
lemma of_true {p : Prog S.Instr S.Resp α} {Q : α → S.State → Prop}
    (h : S.EnsuresIf (fun _ _ => True) n s p Q) : S.Ensures n s p Q := by
  induction p generalizing s with
  | ret a => exact h
  | act i k ih => exact fun ch r s' he => ih r (h trivial ch r s' he)

end EnsuresIf

/-- Every step meets a condition on its request, its instruction and the state before it. -/
def Config.StepOk (ok : S.Req → S.Instr → S.State → Prop) (c : Config S) : Action S → Prop
  | .step n _ => ∀ req i, c.At n req i → ok req i c.state
  | _ => True

/-- All threads but one were answered. -/
def Config.OthersDone (c : Config S) (n : ℕ) : Prop :=
  ∀ m t, m ≠ n → c.threads[m]? = some t → ∃ a, t.phase = .done a

lemma Config.OthersDone.set {c : Config S} {n : ℕ} (h : c.OthersDone n) (s : S.State)
    (t : Thread S) : (⟨s, c.threads.set n t⟩ : Config S).OthersDone n := by
  intro m t' hm ht
  refine h m t' hm ?_
  rwa [List.getElem?_set_ne hm.symm] at ht

/-- The thread that takes a step or is answered is the one that was not answered yet. -/
lemma Config.OthersDone.eq {c : Config S} {n m : ℕ} (h : c.OthersDone n) {id : ℕ} {req : S.Req}
    {p : Prog S.Instr S.Resp S.Ans} (ht : c.threads[m]? = some ⟨id, req, .running p⟩) :
    m = n := by
  by_contra hm
  obtain ⟨a, ha⟩ := h m _ hm ht
  cases ha

/-- Between requests a property holds, and while one is served, something holds of what is left of
its program. -/
def Config.Upholds (c : Config S) (J : ℕ → S.Req → S.State → Prog S.Instr S.Resp S.Ans → Prop)
    (I : S.State → Prop) : Prop :=
  (c.Quiet ∧ I c.state) ∨ ∃ n id req p, c.threads[n]? = some ⟨id, req, .running p⟩ ∧
    c.OthersDone n ∧ J id req c.state p

/-- What is kept by the issue, the steps and the answer of a request that is served alone is kept
by sequential runs. -/
lemma upholds_of_run {allow : Config S → Action S → Prop}
    {J : ℕ → S.Req → S.State → Prog S.Instr S.Resp S.Ans → Prop} {I : S.State → Prop}
    {c₀ c : Config S} (hallow : ∀ c a, allow c a → oneAtATime c a)
    (hissue : ∀ c req n s, allow c (.issue req) → I c.state → S.issue n req c.state = some s →
      J n req s (S.prog req))
    (hstep : ∀ c n ch id req i k r s, allow c (.step n ch) →
      c.threads[n]? = some ⟨id, req, .running (.act i k)⟩ → J id req c.state (.act i k) →
      S.exec id i ch c.state = some (r, s) → J id req s (k r))
    (hanswer : ∀ id req a s, J id req s (.ret a) → I (S.answer id req a s))
    (hq₀ : c₀.Quiet) (h₀ : I c₀.state) (hr : Run allow c₀ c) : c.Upholds J I := by
  refine Run.invariant (P := fun c => c.Upholds J I) (Or.inl ⟨hq₀, h₀⟩) ?_ hr
  rintro c a c' _ ha hn hc
  cases a with
  | issue req =>
    have hquiet : c.Quiet := hallow c _ ha
    rcases hc with ⟨_, hI⟩ | ⟨n, id, req', p, ht, _⟩
    · obtain ⟨s, hs, rfl⟩ := next_issue hn
      refine Or.inr ⟨c.threads.length, c.threads.length, req, S.prog req, ?_, ?_,
        hissue c req _ s ha hI hs⟩
      · exact List.getElem?_concat_length
      · intro m t hm ht
        rw [List.getElem?_append] at ht
        split at ht
        · exact hquiet t (List.mem_of_getElem? ht)
        · rw [List.getElem?_singleton] at ht
          split at ht
          · omega
          · cases ht
    · obtain ⟨a, ha⟩ := hquiet _ (List.mem_of_getElem? ht)
      cases ha
  | step m ch =>
    obtain ⟨id, req, i, k, r, s, ht, he, rfl⟩ := next_step hn
    rcases hc with ⟨hquiet, _⟩ | ⟨n, id', req', p, ht', hothers, hp⟩
    · obtain ⟨a, ha⟩ := hquiet _ (List.mem_of_getElem? ht)
      cases ha
    · obtain rfl := hothers.eq ht
      rw [ht] at ht'
      cases ht'
      refine Or.inr ⟨m, id, req, k r, ?_, hothers.set s _, ?_⟩
      · obtain ⟨hlt, _⟩ := List.getElem?_eq_some_iff.mp ht
        exact List.getElem?_set_self hlt
      · exact hstep c m ch id req i k r s ha ht hp he
  | answer m =>
    obtain ⟨id, req, a, ht, rfl⟩ := next_answer hn
    rcases hc with ⟨hquiet, _⟩ | ⟨n, id', req', p, ht', hothers, hp⟩
    · obtain ⟨a, ha⟩ := hquiet _ (List.mem_of_getElem? ht)
      cases ha
    · obtain rfl := hothers.eq ht
      rw [ht] at ht'
      cases ht'
      refine Or.inl ⟨?_, hanswer _ _ _ _ hp⟩
      intro t hmem
      obtain ⟨j, hj⟩ := List.getElem?_of_mem hmem
      by_cases hjm : j = m
      · subst hjm
        obtain ⟨hlt, _⟩ := List.getElem?_eq_some_iff.mp ht
        rw [List.getElem?_set_self hlt] at hj
        obtain rfl := Option.some.inj hj
        exact ⟨a, rfl⟩
      · rw [List.getElem?_set_ne (Ne.symm hjm)] at hj
        exact hothers j t hjm hj

namespace Config.Upholds

variable {c : Config S} {J : ℕ → S.Req → S.State → Prog S.Instr S.Resp S.Ans → Prop}
  {I : S.State → Prop}

/-- When all requests were answered, the property holds. -/
lemma quiet (h : c.Upholds J I) (hq : c.Quiet) : I c.state := by
  rcases h with ⟨_, hI⟩ | ⟨n, id, req, p, ht, _⟩
  · exact hI
  · obtain ⟨a, ha⟩ := hq _ (List.mem_of_getElem? ht)
    cases ha

/-- The request that is served is the one of the thread that is to take a step. -/
lemma running (h : c.Upholds J I) {n id : ℕ} {req : S.Req} {p : Prog S.Instr S.Resp S.Ans}
    (ht : c.threads[n]? = some ⟨id, req, .running p⟩) : J id req c.state p := by
  rcases h with ⟨hquiet, _⟩ | ⟨m, id', req', p', ht', hothers, hp⟩
  · obtain ⟨a, ha⟩ := hquiet _ (List.mem_of_getElem? ht)
    cases ha
  · obtain rfl := hothers.eq ht
    rw [ht] at ht'
    cases ht'
    exact hp

end Config.Upholds

/-- A property of the state that every request keeps when it is served alone, in steps that meet
the condition, holds whenever all requests of a sequential run with such steps were answered. -/
theorem sequential_invariant {ok : S.Req → S.Instr → S.State → Prop} {I : S.State → Prop}
    {c₀ c : Config S} (hq₀ : c₀.Quiet) (h₀ : I c₀.state)
    (hserve : ∀ n req s₀ s, I s₀ → S.issue n req s₀ = some s →
      S.EnsuresIf (ok req) n s (S.prog req) fun a s' => I (S.answer n req a s'))
    (hr : Run (fun c a => oneAtATime c a ∧ c.StepOk ok a) c₀ c) (hq : c.Quiet) : I c.state := by
  have hupholds : c.Upholds
      (fun id req s p => S.EnsuresIf (ok req) id s p fun a s' => I (S.answer id req a s')) I := by
    refine upholds_of_run (fun c a h => h.1) ?_ ?_ (fun id req a s h => h) hq₀ h₀ hr
    · intro c req n s _ hI hs
      exact hserve n req c.state s hI hs
    · intro c n ch id req i k r s hok ht hp he
      exact hp (hok.2 req i ⟨id, k, ht⟩) ch r s he
  exact hupholds.quiet hq

/-! ## Concrete runs -/

/-- Was every request answered? -/
def Config.idle (c : Config S) : Bool :=
  c.threads.all fun t =>
    match t.phase with
    | .done _ => true
    | .running _ => false

lemma quiet_of_idle {c : Config S} (h : c.idle = true) : c.Quiet := by
  intro t ht
  have hdone := List.all_eq_true.mp h t ht
  cases hp : t.phase with
  | done a => exact ⟨a, rfl⟩
  | running p =>
    rw [hp] at hdone
    cases hdone

/-- The check behind `oneAtATime`. -/
def Config.alone (c : Config S) : Action S → Bool
  | .issue _ => c.idle
  | _ => true

lemma oneAtATime_of_alone (c : Config S) (a : Action S) (h : c.alone a = true) :
    oneAtATime c a := by
  cases a with
  | issue req => exact quiet_of_idle h
  | step n ch => trivial
  | answer n => trivial

/-- Run a program alone with one choice for all of its instructions, at most `m` of them. -/
def runAlone (S : Service) (n : ℕ) (ch : S.Choice) :
    ℕ → Prog S.Instr S.Resp α → S.State → Option (α × S.State)
  | _, .ret a, s => some (a, s)
  | 0, .act _ _, _ => none
  | m + 1, .act i k, s =>
    match S.exec n i ch s with
    | some (r, s') => runAlone S n ch m (k r) s'
    | none => none

lemma alone_of_runAlone {n : ℕ} {ch : S.Choice} {m : ℕ} {p : Prog S.Instr S.Resp α}
    {s s' : S.State} {a : α} (h : runAlone S n ch m p s = some (a, s')) : Alone S n p s a s' := by
  induction m generalizing p s with
  | zero =>
    cases p with
    | ret b =>
      obtain ⟨rfl, rfl⟩ := Prod.mk.inj (Option.some.inj h)
      exact .ret _ _
    | act i k => cases h
  | succ m ih =>
    cases p with
    | ret b =>
      obtain ⟨rfl, rfl⟩ := Prod.mk.inj (Option.some.inj h)
      exact .ret _ _
    | act i k =>
      rw [runAlone] at h
      split at h
      · next r s₁ he => exact .act he (ih h)
      · cases h

/-! ## Sequences of programs -/

/-- One instruction, then the rest. -/
lemma alone_perform {n : ℕ} {i : S.Instr} {f : S.Resp i → Prog S.Instr S.Resp β}
    {ch : S.Choice} {s s₁ s₂ : S.State} {r : S.Resp i} {b : β}
    (he : S.exec n i ch s = some (r, s₁)) (hf : Alone S n (f r) s₁ b s₂) :
    Alone S n (Prog.perform i >>= f) s b s₂ :=
  .act he hf

/-- A branch that is taken. -/
lemma alone_ite {n : ℕ} {c : Prop} [Decidable c] {p q : Prog S.Instr S.Resp α} {s s' : S.State}
    {a : α} (hc : c) (hp : Alone S n p s a s') : Alone S n (if c then p else q) s a s' := by
  rw [if_pos hc]
  exact hp

/-- A sequence runs its parts one after the other. -/
lemma alone_bind {n : ℕ} {p : Prog S.Instr S.Resp α} {f : α → Prog S.Instr S.Resp β}
    {s s' : S.State} {b : β} :
    Alone S n (p >>= f) s b s' ↔
      ∃ a s₁, Alone S n p s a s₁ ∧ Alone S n (f a) s₁ b s' := by
  induction p generalizing s with
  | ret a =>
    constructor
    · intro h
      exact ⟨a, s, .ret a s, h⟩
    · rintro ⟨a', s₁, hp, hf⟩
      cases hp
      exact hf
  | act i k ih =>
    constructor
    · intro h
      cases h with
      | act he hk =>
        obtain ⟨a, s₁, hp, hf⟩ := (ih _).mp hk
        exact ⟨a, s₁, .act he hp, hf⟩
    · rintro ⟨a, s₁, hp, hf⟩
      cases hp with
      | act he hk => exact .act he ((ih _).mpr ⟨a, s₁, hk, hf⟩)

/-! ## Whole requests -/

/-- A request is issued, served alone and answered. -/
def Serves (c : Config S) (req : S.Req) (a : S.Ans) (c' : Config S) : Prop :=
  ∃ s s', S.issue c.threads.length req c.state = some s ∧
    Alone S c.threads.length (S.prog req) s a s' ∧
    c' = ⟨S.answer c.threads.length req a s', c.threads ++
      [⟨c.threads.length, req, .done a⟩]⟩

/-- A request that is issued now and served alone is answered, whatever it chooses. -/
def Config.Returns (c : Config S) (req : S.Req) : Prop :=
  ∃ s, S.issue c.threads.length req c.state = some s ∧
    S.Yields True c.threads.length s (S.prog req) fun _ _ => True

/-- A request that returns is served. -/
lemma Config.Returns.serves {c : Config S} {req : S.Req} (h : c.Returns req) :
    ∃ a c', Serves c req a c' := by
  obtain ⟨s, hissue, hyields⟩ := h
  obtain ⟨a, s', halone, _⟩ := hyields.alone trivial
  exact ⟨a, _, s, s', hissue, halone, rfl⟩

/-- Serve a request alone, with one choice for all of its instructions, at most `m` of them: the
answer and the configuration after it. -/
def Config.serveAlone (c : Config S) (ch : S.Choice) (m : ℕ) (req : S.Req) :
    Option (S.Ans × Config S) :=
  match S.issue c.threads.length req c.state with
  | none => none
  | some s =>
    (runAlone S c.threads.length ch m (S.prog req) s).map fun r =>
      (r.1, ⟨S.answer c.threads.length req r.1 r.2,
        c.threads ++ [⟨c.threads.length, req, .done r.1⟩]⟩)

/-- The configuration after a request that was served alone. -/
def Config.served (c : Config S) (ch : S.Choice) (m : ℕ) (req : S.Req) : Config S :=
  (c.serveAlone ch m req).elim c Prod.snd

lemma serves_served {c : Config S} {ch : S.Choice} {m : ℕ} {req : S.Req} {a : S.Ans}
    (h : (c.serveAlone ch m req).map Prod.fst = some a) : Serves c req a (c.served ch m req) := by
  obtain ⟨⟨a', c'⟩, hserve, rfl⟩ := Option.map_eq_some_iff.mp h
  unfold Config.served
  rw [hserve]
  unfold Config.serveAlone at hserve
  split at hserve
  · cases hserve
  · next s hissue =>
    obtain ⟨⟨b, s'⟩, hrun, heq⟩ := Option.map_eq_some_iff.mp hserve
    obtain ⟨rfl, rfl⟩ := Prod.mk.inj heq
    exact ⟨s, s', hissue, alone_of_runAlone hrun, rfl⟩

/-- A thread that runs alone takes steps of the service. -/
lemma Alone.run {allow : Config S → Action S → Prop}
    (hstep : ∀ c n ch, allow c (.step n ch)) {n : ℕ} {ts : List (Thread S)} {id : ℕ}
    {req : S.Req} {p : Prog S.Instr S.Resp S.Ans} {s s' : S.State} {a : S.Ans}
    (h : Alone S id p s a s') (ht : ts[n]? = some ⟨id, req, .running p⟩) :
    Run allow ⟨s, ts⟩ ⟨s', ts.set n ⟨id, req, .running (.ret a)⟩⟩ := by
  induction h generalizing ts with
  | ret a s =>
    obtain ⟨hlt, heq⟩ := List.getElem?_eq_some_iff.mp ht
    rw [← heq, List.set_getElem_self]
    exact .refl
  | @act i k ch s s₁ s₂ r a he hk ih =>
    have hnext : (⟨s, ts⟩ : Config S).next (.step n ch) =
        some ⟨s₁, ts.set n ⟨id, req, .running (k r)⟩⟩ := by
      simp only [Config.next, ht, he]
    obtain ⟨hlt, _⟩ := List.getElem?_eq_some_iff.mp ht
    have hset : (ts.set n ⟨id, req, .running (k r)⟩)[n]? = some ⟨id, req, .running (k r)⟩ :=
      List.getElem?_set_self hlt
    have hrest := ih hset
    rw [List.set_set] at hrest
    exact (Run.tail _ .refl (hstep _ n ch) hnext).trans hrest

/-- A request that is served alone is a run of the service. -/
theorem Serves.run {c c' : Config S} {req : S.Req} {a : S.Ans} (h : Serves c req a c')
    {allow : Config S → Action S → Prop} (hissue : allow c (.issue req))
    (hstep : ∀ c n ch, allow c (.step n ch)) (hanswer : ∀ c n, allow c (.answer n)) :
    Run allow c c' := by
  obtain ⟨s, s', hi, hp, rfl⟩ := h
  have hget : (c.threads ++ [Thread.start c.threads.length req])[c.threads.length]? =
      some (Thread.start c.threads.length req) := by
    rw [List.getElem?_append_right le_rfl, Nat.sub_self]
    rfl
  have hrun := Alone.run hstep hp hget
  have hset : (c.threads ++ [Thread.start c.threads.length req]).set c.threads.length
      ⟨c.threads.length, req, .running (.ret a)⟩ =
      c.threads ++ [⟨c.threads.length, req, .running (.ret a)⟩] := by
    rw [List.set_append_right _ _ le_rfl, Nat.sub_self]
    rfl
  rw [hset] at hrun
  have hfirst : c.next (.issue req) =
      some ⟨s, c.threads ++ [Thread.start c.threads.length req]⟩ := by
    simp only [Config.next, hi]
  have hlast :
      (⟨s', c.threads ++ [⟨c.threads.length, req, .running (.ret a)⟩]⟩ : Config S).next
      (.answer c.threads.length) = some ⟨S.answer c.threads.length req a s',
        c.threads ++ [⟨c.threads.length, req, .done a⟩]⟩ := by
    simp only [Config.next]
    rw [List.getElem?_append_right le_rfl, Nat.sub_self]
    simp only [List.getElem?_cons_zero]
    rw [List.set_append_right _ _ le_rfl, Nat.sub_self]
    rfl
  exact ((Run.tail _ .refl hissue hfirst).trans hrun).tail _ (hanswer _ _) hlast

end Service

end Conc
