import TypedFuse.Conc.Prog

/-!
# Services of concurrent requests

A `Service` serves requests: each request is answered by a program, and any number of such programs
run at the same time over one shared state.  A configuration is the shared state with the list of
all requests issued so far, each still running or already answered.  One action issues a request,
lets one running program perform its next instruction, or delivers an answer.

Instructions are functions of an explicit choice, so a run is a list of actions that can be
evaluated, and an instruction that has to wait is one that is not defined yet.  They also see the
number of the thread that performs them, for states that record who did what.  `Run` is
reachability through actions that satisfy a side condition, which is how schedules, well-behaved
environments and histories "in which nothing of this kind happens" are stated.
-/

namespace Conc

/-- A service of concurrent requests over a shared state. -/
structure Service where
  /-- The atomic instructions. -/
  Instr : Type
  /-- The answer to an instruction. -/
  Resp : Instr → Type
  /-- What is left open when an instruction is performed. -/
  Choice : Type
  /-- The shared state. -/
  State : Type
  /-- The requests. -/
  Req : Type
  /-- The answers to requests. -/
  Ans : Type
  /-- The effect of an instruction of a thread; undefined while it has to wait. -/
  exec : ℕ → (i : Instr) → Choice → State → Option (Resp i × State)
  /-- The program that serves a request. -/
  prog : Req → Prog Instr Resp Ans
  /-- What the environment does to the state when it issues a request, if it may issue it. -/
  issue : ℕ → Req → State → Option State
  /-- What the environment does to the state when it receives an answer. -/
  answer : ℕ → Req → Ans → State → State

namespace Service

variable {S : Service}

/-- A request is being served or has been answered. -/
inductive Phase (S : Service) : Type where
  /-- The rest of the program that serves the request. -/
  | running (p : Prog S.Instr S.Resp S.Ans)
  /-- The answer that was delivered. -/
  | done (a : S.Ans)

/-- A request together with how far it got. -/
structure Thread (S : Service) : Type where
  /-- The number of the thread. -/
  id : ℕ
  /-- The request. -/
  req : S.Req
  /-- How far it got. -/
  phase : Phase S

/-- A configuration: the shared state and all requests issued so far. -/
structure Config (S : Service) : Type where
  /-- The shared state. -/
  state : S.State
  /-- The requests issued so far, in order. -/
  threads : List (Thread S)

/-- One action of the service. -/
inductive Action (S : Service) : Type where
  /-- The environment issues a request. -/
  | issue (r : S.Req)
  /-- Thread `n` performs its next instruction. -/
  | step (n : ℕ) (ch : S.Choice)
  /-- The answer of thread `n` is delivered. -/
  | answer (n : ℕ)

/-- A fresh thread for a request. -/
def Thread.start (n : ℕ) (r : S.Req) : Thread S :=
  ⟨n, r, .running (S.prog r)⟩

/-- The configuration after an action, if the action can be taken. -/
def Config.next (c : Config S) : Action S → Option (Config S)
  | .issue r =>
    match S.issue c.threads.length r c.state with
    | some s => some ⟨s, c.threads ++ [Thread.start c.threads.length r]⟩
    | none => none
  | .step n ch =>
    match c.threads[n]? with
    | some ⟨id, req, .running (.act i k)⟩ =>
      match S.exec id i ch c.state with
      | some (r, s) => some ⟨s, c.threads.set n ⟨id, req, .running (k r)⟩⟩
      | none => none
    | _ => none
  | .answer n =>
    match c.threads[n]? with
    | some ⟨id, req, .running (.ret a)⟩ =>
      some ⟨S.answer id req a c.state, c.threads.set n ⟨id, req, .done a⟩⟩
    | _ => none

/-- The configuration after a list of actions, if they can all be taken and pass a check. -/
def Config.runs (check : Config S → Action S → Bool) (c : Config S) :
    List (Action S) → Option (Config S)
  | [] => some c
  | a :: as =>
    if check c a then
      match c.next a with
      | some c' => c'.runs check as
      | none => none
    else none

/-- All requests issued so far have been answered. -/
def Config.Quiet (c : Config S) : Prop :=
  ∀ t ∈ c.threads, ∃ a, t.phase = .done a

/-- Thread `n` of the configuration serves `req` and is about to perform `i`. -/
def Config.At (c : Config S) (n : ℕ) (req : S.Req) (i : S.Instr) : Prop :=
  ∃ id k, c.threads[n]? = some ⟨id, req, .running (.act i k)⟩

/-- The configurations reachable from `c₀` by actions that satisfy `allow`. -/
inductive Run (allow : Config S → Action S → Prop) (c₀ : Config S) : Config S → Prop where
  /-- The start. -/
  | refl : Run allow c₀ c₀
  /-- One more allowed action. -/
  | tail {c c' : Config S} (a : Action S) :
      Run allow c₀ c → allow c a → c.next a = some c' → Run allow c₀ c'

/-- Every action is allowed. -/
def anyAction (_ : Config S) (_ : Action S) : Prop := True

/-- A request is issued only when all earlier requests have been answered. -/
def oneAtATime (c : Config S) : Action S → Prop
  | .issue _ => c.Quiet
  | _ => True

/-! ## Runs -/

/-- Fewer restrictions allow more runs. -/
lemma Run.mono {allow allow' : Config S → Action S → Prop} {c₀ c : Config S}
    (h : ∀ c a, allow c a → allow' c a) (hr : Run allow c₀ c) : Run allow' c₀ c := by
  induction hr with
  | refl => exact .refl
  | tail a _ ha hn ih => exact .tail a ih (h _ a ha) hn

/-- Likewise for restrictions that look at where an action leads. -/
lemma Run.mono_next {allow allow' : Config S → Action S → Prop} {c₀ c : Config S}
    (h : ∀ c a c', allow c a → c.next a = some c' → allow' c a) (hr : Run allow c₀ c) :
    Run allow' c₀ c := by
  induction hr with
  | refl => exact .refl
  | tail a _ ha hn ih => exact .tail a ih (h _ a _ ha hn) hn

/-- Forget the restriction of a run. -/
lemma Run.any {allow : Config S → Action S → Prop} {c₀ c : Config S} (hr : Run allow c₀ c) :
    Run anyAction c₀ c :=
  hr.mono fun _ _ _ => trivial

/-- Runs compose. -/
lemma Run.trans {allow : Config S → Action S → Prop} {c₀ c₁ c₂ : Config S}
    (h₁ : Run allow c₀ c₁) (h₂ : Run allow c₁ c₂) : Run allow c₀ c₂ := by
  induction h₂ with
  | refl => exact h₁
  | tail a _ ha hn ih => exact .tail a ih ha hn

/-- A property of the start that every allowed action of the run keeps holds at its end. -/
lemma Run.invariant {allow : Config S → Action S → Prop} {P : Config S → Prop}
    {c₀ c : Config S} (h₀ : P c₀)
    (hstep : ∀ c a c', Run allow c₀ c → allow c a → c.next a = some c' → P c → P c')
    (hr : Run allow c₀ c) : P c := by
  induction hr with
  | refl => exact h₀
  | tail a hr ha hn ih => exact hstep _ a _ hr ha hn ih

/-- What a list of actions that pass a check leads to is reachable by allowed actions. -/
lemma run_of_runs {allow : Config S → Action S → Prop} {check : Config S → Action S → Bool}
    (hcheck : ∀ c a, check c a = true → allow c a) {c c' : Config S} {as : List (Action S)}
    (h : c.runs check as = some c') : Run allow c c' := by
  induction as generalizing c with
  | nil =>
    cases h
    exact .refl
  | cons a as ih =>
    rw [Config.runs] at h
    split at h
    · next ha =>
      split at h
      · next c₁ hn => exact (Run.tail a .refl (hcheck c a ha) hn).trans (ih h)
      · cases h
    · cases h

/-! ## What an action can do -/

/-- Issuing a request adds a fresh thread. -/
lemma next_issue {c c' : Config S} {r : S.Req} (h : c.next (.issue r) = some c') :
    ∃ s, S.issue c.threads.length r c.state = some s ∧
      c' = ⟨s, c.threads ++ [Thread.start c.threads.length r]⟩ := by
  rw [Config.next] at h
  split at h
  · next s hs => exact ⟨s, hs, (Option.some.inj h).symm⟩
  · cases h

/-- A step performs the next instruction of a running thread. -/
lemma next_step {c c' : Config S} {n : ℕ} {ch : S.Choice} (h : c.next (.step n ch) = some c') :
    ∃ id req i k r s, c.threads[n]? = some ⟨id, req, .running (.act i k)⟩ ∧
      S.exec id i ch c.state = some (r, s) ∧
      c' = ⟨s, c.threads.set n ⟨id, req, .running (k r)⟩⟩ := by
  rw [Config.next] at h
  split at h
  · next id req i k ht =>
    split at h
    · next r s he => exact ⟨id, req, i, k, r, s, ht, he, (Option.some.inj h).symm⟩
    · cases h
  · cases h

/-- An answer is delivered when the program of its thread has returned. -/
lemma next_answer {c c' : Config S} {n : ℕ} (h : c.next (.answer n) = some c') :
    ∃ id req a, c.threads[n]? = some ⟨id, req, .running (.ret a)⟩ ∧
      c' = ⟨S.answer id req a c.state, c.threads.set n ⟨id, req, .done a⟩⟩ := by
  rw [Config.next] at h
  split at h
  · next id req a ht => exact ⟨id, req, a, ht, (Option.some.inj h).symm⟩
  · cases h

/-- A property of the shared state that instructions and the environment keep holds along every
run. -/
lemma Run.state_invariant {allow : Config S → Action S → Prop} {P : S.State → Prop}
    {c₀ c : Config S} (h₀ : P c₀.state)
    (hexec : ∀ n i ch s r s', S.exec n i ch s = some (r, s') → P s → P s')
    (hissue : ∀ n r s s', S.issue n r s = some s' → P s → P s')
    (hanswer : ∀ n r a s, P s → P (S.answer n r a s))
    (hr : Run allow c₀ c) : P c.state := by
  refine Run.invariant (P := fun c => P c.state) h₀ ?_ hr
  intro c a c' _ _ hn hP
  cases a with
  | issue r =>
    obtain ⟨s, hs, rfl⟩ := next_issue hn
    exact hissue _ r _ s hs hP
  | step n ch =>
    obtain ⟨id, req, i, k, r, s, _, he, rfl⟩ := next_step hn
    exact hexec id i ch _ r s he hP
  | answer n =>
    obtain ⟨id, req, a, _, rfl⟩ := next_answer hn
    exact hanswer id req a _ hP

/-- The threads are numbered in the order of their requests. -/
def Config.Numbered (c : Config S) : Prop :=
  ∀ (n : ℕ) (t : Thread S), c.threads[n]? = some t → t.id = n

lemma numbered_set {ts : List (Thread S)}
    (h : ∀ (n : ℕ) (t : Thread S), ts[n]? = some t → t.id = n) {n : ℕ}
    {t₀ t₁ : Thread S} (h₀ : ts[n]? = some t₀) (hid : t₁.id = t₀.id) (m : ℕ)
    (t : Thread S) (ht : (ts.set n t₁)[m]? = some t) : t.id = m := by
  rw [List.getElem?_set] at ht
  split at ht
  · next hnm =>
    split at ht
    · obtain rfl := Option.some.inj ht
      rw [hid, h n t₀ h₀, hnm]
    · cases ht
  · exact h m t ht

/-- Runs number the threads in order. -/
lemma Run.numbered {allow : Config S → Action S → Prop} {c₀ c : Config S}
    (h₀ : c₀.Numbered) (hr : Run allow c₀ c) : c.Numbered := by
  refine Run.invariant h₀ ?_ hr
  intro c a c' _ _ hn hc
  cases a with
  | issue r =>
    obtain ⟨s, _, rfl⟩ := next_issue hn
    intro n t ht
    simp only [List.getElem?_append] at ht
    split at ht
    · exact hc n t ht
    · next hlt =>
      rw [List.getElem?_singleton] at ht
      split at ht
      · obtain rfl := Option.some.inj ht
        simp only [Thread.start]
        omega
      · cases ht
  | step n ch =>
    obtain ⟨id, req, i, k, r, s, ht, _, rfl⟩ := next_step hn
    exact numbered_set hc ht rfl
  | answer n =>
    obtain ⟨id, req, a, ht, rfl⟩ := next_answer hn
    exact numbered_set hc ht rfl

end Service

end Conc
