import TypedFuse.Conc.Service

/-!
# Traces of runs

The instructions that the threads of a service perform along a run, in order and with their answers.
A trace keeps what the states of a run forget: which of two instructions came first, and what a
thread has done before.

`Tracks` is a program logic over the past of a single thread.  It says which instructions a program
may perform after which ones, and what its past looks like when it returns; nothing is assumed of
the answers, so it does not depend on what the other threads do.  `Traced.tracked` is its soundness.
-/

namespace Conc

/-- An instruction that a thread has performed, with its answer. -/
structure Event (S : Service) where
  /-- The thread. -/
  thread : ℕ
  /-- The instruction. -/
  instr : S.Instr
  /-- The answer. -/
  resp : S.Resp instr

namespace Service

variable {S : Service} {α β : Type}

/-- The configurations reachable from `c₀` by actions that satisfy `allow`, with the events on the
way, oldest first. -/
inductive Traced (allow : Config S → Action S → Prop) (c₀ : Config S) :
    Config S → List (Event S) → Prop where
  /-- The start. -/
  | refl : Traced allow c₀ c₀ []
  /-- A request is issued. -/
  | issue {c c' : Config S} {es : List (Event S)} (req : S.Req) :
      Traced allow c₀ c es → allow c (.issue req) → c.next (.issue req) = some c' →
      Traced allow c₀ c' es
  /-- A thread performs its next instruction. -/
  | step {c : Config S} {es : List (Event S)} {n id : ℕ} {req : S.Req} {i : S.Instr}
      {k : S.Resp i → Prog S.Instr S.Resp S.Ans} {r : S.Resp i} {s : S.State} (ch : S.Choice) :
      Traced allow c₀ c es → allow c (.step n ch) →
      c.threads[n]? = some ⟨id, req, .running (.act i k)⟩ →
      S.exec id i ch c.state = some (r, s) →
      Traced allow c₀ ⟨s, c.threads.set n ⟨id, req, .running (k r)⟩⟩
        (es ++ [⟨id, i, r⟩])
  /-- An answer is delivered. -/
  | answer {c c' : Config S} {es : List (Event S)} (n : ℕ) :
      Traced allow c₀ c es → allow c (.answer n) → c.next (.answer n) = some c' →
      Traced allow c₀ c' es

variable {allow : Config S → Action S → Prop} {c₀ c : Config S} {es : List (Event S)}

/-- A running thread can perform its next instruction. -/
lemma next_of_exec {n id : ℕ} {req : S.Req} {i : S.Instr}
    {k : S.Resp i → Prog S.Instr S.Resp S.Ans} {r : S.Resp i} {s : S.State} {ch : S.Choice}
    (ht : c.threads[n]? = some ⟨id, req, .running (.act i k)⟩)
    (he : S.exec id i ch c.state = some (r, s)) :
    c.next (.step n ch) = some ⟨s, c.threads.set n ⟨id, req, .running (k r)⟩⟩ := by
  rw [Config.next]
  simp only [ht, he]

/-- A traced run is a run. -/
lemma Traced.run (h : Traced allow c₀ c es) : Run allow c₀ c := by
  induction h with
  | refl => exact .refl
  | issue req _ ha hn ih => exact .tail _ ih ha hn
  | step ch _ ha ht he ih => exact .tail (.step _ ch) ih ha (next_of_exec ht he)
  | answer n _ ha hn ih => exact .tail _ ih ha hn

/-- Every run has a trace. -/
lemma Run.traced (h : Run allow c₀ c) : ∃ es, Traced allow c₀ c es := by
  induction h with
  | refl => exact ⟨[], .refl⟩
  | tail a _ ha hn ih =>
    obtain ⟨es, hes⟩ := ih
    cases a with
    | issue req => exact ⟨es, .issue req hes ha hn⟩
    | step n ch =>
      obtain ⟨id, req, i, k, r, s, ht, he, rfl⟩ := next_step hn
      exact ⟨_, .step ch hes ha ht he⟩
    | answer n => exact ⟨es, .answer n hes ha hn⟩

/-- A property of the shared state and the trace that instructions and the environment keep holds
along every run. -/
lemma Traced.state_invariant {P : S.State → List (Event S) → Prop} (h₀ : P c₀.state [])
    (hexec : ∀ {c es n i ch r s}, Traced allow c₀ c es →
      S.exec n i ch c.state = some (r, s) →
      P c.state es → P s (es ++ [⟨n, i, r⟩]))
    (hissue : ∀ {n req s s' es}, S.issue n req s = some s' → P s es → P s' es)
    (hanswer : ∀ {n req a s es}, P s es → P (S.answer n req a s) es)
    (h : Traced allow c₀ c es) : P c.state es := by
  induction h with
  | refl => exact h₀
  | issue req _ _ hn ih =>
    obtain ⟨s, hs, rfl⟩ := next_issue hn
    exact hissue hs ih
  | step ch htr _ _ he ih => exact hexec htr he ih
  | answer n _ _ hn ih =>
    obtain ⟨id, req, a, _, rfl⟩ := next_answer hn
    exact hanswer ih

/-- An element of a list to which one was added is the new one, with nothing after it, or it was
there before, and the new one comes last. -/
lemma split_snoc {A : Type} {l l₁ l₂ : List A} {x y : A} (h : l ++ [x] = l₁ ++ y :: l₂) :
    (l₁ = l ∧ y = x ∧ l₂ = []) ∨ ∃ l₃, l = l₁ ++ y :: l₃ ∧ l₂ = l₃ ++ [x] := by
  rcases List.eq_nil_or_concat l₂ with rfl | ⟨l₃, z, rfl⟩
  · obtain ⟨rfl, heq⟩ := List.append_inj' h rfl
    exact Or.inl ⟨rfl, (List.cons.inj heq).1.symm, rfl⟩
  · rw [List.concat_eq_append, ← List.cons_append, ← List.append_assoc] at h
    obtain ⟨hl, hx⟩ := List.append_inj' h rfl
    refine Or.inr ⟨l₃, hl, ?_⟩
    rw [List.concat_eq_append, hx]

/-- What comes after an element that is not in the first part of a list is in the second part. -/
lemma mem_of_after {A : Type} {l l' l₁ l₂ : List A} {x y : A} (h : l ++ l' = l₁ ++ x :: l₂)
    (hx : x ∉ l) (hy : y ∈ l₂) : y ∈ l' := by
  rcases List.append_eq_append_iff.mp h with ⟨l₃, _, rfl⟩ | ⟨l₃, rfl, heq⟩
  · exact List.mem_append_right l₃ (List.mem_cons_of_mem x hy)
  · cases l₃ with
    | nil =>
      rw [List.nil_append] at heq
      exact heq ▸ List.mem_cons_of_mem x hy
    | cons z l₄ =>
      obtain ⟨rfl, _⟩ := List.cons.inj heq
      exact absurd (List.mem_append_right l₁ List.mem_cons_self) hx

/-- A thread keeps its number and its request. -/
lemma getElem?_set_same {ts : List (Thread S)} {m n id id' : ℕ} {req req' : S.Req}
    {ph ph' : Phase S} (hm : ts[m]? = some ⟨id', req', ph'⟩)
    (hn : ts[n]? = some ⟨id, req, ph⟩) (ph₁ : Phase S) :
    ∃ ph₂, (ts.set m ⟨id', req', ph₁⟩)[n]? = some ⟨id, req, ph₂⟩ := by
  by_cases hmn : m = n
  · subst hmn
    rw [hm] at hn
    cases hn
    obtain ⟨hlt, _⟩ := List.getElem?_eq_some_iff.mp hm
    exact ⟨ph₁, List.getElem?_set_self hlt⟩
  · exact ⟨ph, by rw [List.getElem?_set_ne hmn, hn]⟩

/-- Every event of a trace was performed in a configuration that the events before it lead to, by
one of the threads. -/
lemma Traced.fired (h : Traced allow c₀ c es) {es₁ es₂ : List (Event S)} {e : Event S}
    (hes : es = es₁ ++ e :: es₂) :
    ∃ (c₁ : Config S) (n : ℕ) (req : S.Req) (k : S.Resp e.instr → Prog S.Instr S.Resp S.Ans)
        (ch : S.Choice) (s : S.State), Traced allow c₀ c₁ es₁ ∧ allow c₁ (.step n ch) ∧
      c₁.threads[n]? = some ⟨e.thread, req, .running (.act e.instr k)⟩ ∧
      S.exec e.thread e.instr ch c₁.state = some (e.resp, s) ∧
      ∃ ph, c.threads[n]? = some ⟨e.thread, req, ph⟩ := by
  induction h generalizing es₂ with
  | refl => simp at hes
  | issue req _ _ hn ih =>
    obtain ⟨c₁, n, req', k, ch, s, htr₁, ha₁, ht₁, he₁, ph, ht⟩ := ih hes
    obtain ⟨s', _, rfl⟩ := next_issue hn
    obtain ⟨hlt, _⟩ := List.getElem?_eq_some_iff.mp ht
    exact ⟨c₁, n, req', k, ch, s, htr₁, ha₁, ht₁, he₁, ph, by
      rw [List.getElem?_append_left hlt, ht]⟩
  | step ch htr ha ht he ih =>
    rcases split_snoc hes with ⟨rfl, rfl, _⟩ | ⟨es₃, hes, _⟩
    · exact ⟨_, _, _, _, ch, _, htr, ha, ht, he, getElem?_set_same ht ht _⟩
    · obtain ⟨c₁, n, req', k, ch, s, htr₁, ha₁, ht₁, he₁, ph, htn⟩ := ih hes
      exact ⟨c₁, n, req', k, ch, s, htr₁, ha₁, ht₁, he₁, getElem?_set_same ht htn _⟩
  | answer m _ _ hn ih =>
    obtain ⟨c₁, n, req', k, ch, s, htr₁, ha₁, ht₁, he₁, ph, htn⟩ := ih hes
    obtain ⟨id, req, a, ht, rfl⟩ := next_answer hn
    exact ⟨c₁, n, req', k, ch, s, htr₁, ha₁, ht₁, he₁, getElem?_set_same ht htn _⟩

/-- The events of one thread. -/
def eventsOf (n : ℕ) (es : List (Event S)) : List (Event S) :=
  es.filter fun e => e.thread = n

lemma mem_eventsOf {n : ℕ} {e : Event S} : e ∈ eventsOf n es ↔ e ∈ es ∧ e.thread = n := by
  simp [eventsOf]

/-- An event among those of one thread, and the events of the thread before it. -/
lemma eventsOf_split {n : ℕ} {e : Event S} {g₁ g₂ : List (Event S)}
    (h : eventsOf n es = g₁ ++ e :: g₂) :
    ∃ es₁ es₂, es = es₁ ++ e :: es₂ ∧ eventsOf n es₁ = g₁ ∧ e.thread = n := by
  obtain ⟨l₁, l₂, rfl, h₁, h₂⟩ := List.filter_eq_append_iff.mp h
  obtain ⟨l₃, l₄, rfl, hno, he, _⟩ := List.filter_eq_cons_iff.mp h₂
  refine ⟨l₁ ++ l₃, l₄, by rw [List.append_assoc], ?_, of_decide_eq_true he⟩
  rw [eventsOf, List.filter_append, h₁, List.filter_eq_nil_iff.mpr hno, List.append_nil]

/-- A thread of a changed list is the new one or an old one. -/
lemma getElem?_set_cases {ts : List (Thread S)} {n m : ℕ} {t t' : Thread S}
    (h : (ts.set n t')[m]? = some t) : (m = n ∧ t = t') ∨ (m ≠ n ∧ ts[m]? = some t) := by
  rw [List.getElem?_set] at h
  split at h
  · next hnm =>
    split at h
    · exact Or.inl ⟨hnm.symm, (Option.some.inj h).symm⟩
    · cases h
  · next hnm => exact Or.inr ⟨fun hmn => hnm hmn.symm, h⟩

/-- A thread after a request was issued is the new one or an old one. -/
lemma getElem?_issue_cases {ts : List (Thread S)} {m : ℕ} {t t' : Thread S}
    (h : (ts ++ [t'])[m]? = some t) : ts[m]? = some t ∨ (m = ts.length ∧ t = t') := by
  rw [List.getElem?_append] at h
  split at h
  · exact Or.inl h
  · next hlt =>
    rw [List.getElem?_singleton] at h
    split at h
    · exact Or.inr ⟨by omega, (Option.some.inj h).symm⟩
    · cases h

/-- A running thread was running before an action, with the same request, or it was issued. -/
lemma running_before {c c' : Config S} {a : Action S} (hn : c.next a = some c') {n id : ℕ}
    {req : S.Req} {p : Prog S.Instr S.Resp S.Ans}
    (ht : c'.threads[n]? = some ⟨id, req, .running p⟩) :
    (∃ p', c.threads[n]? = some ⟨id, req, .running p'⟩) ∨
      (a = .issue req ∧ n = c.threads.length) := by
  cases a with
  | issue r =>
    obtain ⟨s, _, rfl⟩ := next_issue hn
    rcases getElem?_issue_cases ht with ht | ⟨rfl, heq⟩
    · exact Or.inl ⟨p, ht⟩
    · cases heq
      exact Or.inr ⟨rfl, rfl⟩
  | step m ch =>
    obtain ⟨id', req', i, k, r, s, htm, _, rfl⟩ := next_step hn
    rcases getElem?_set_cases ht with ⟨rfl, heq⟩ | ⟨_, ht⟩
    · cases heq
      exact Or.inl ⟨_, htm⟩
    · exact Or.inl ⟨p, ht⟩
  | answer m =>
    obtain ⟨id', req', b, htm, rfl⟩ := next_answer hn
    rcases getElem?_set_cases ht with ⟨rfl, heq⟩ | ⟨_, ht⟩
    · cases heq
    · exact Or.inl ⟨p, ht⟩

lemma eventsOf_snoc_self (n : ℕ) (i : S.Instr) (r : S.Resp i) :
    eventsOf n (es ++ [⟨n, i, r⟩]) = eventsOf n es ++ [⟨n, i, r⟩] := by
  simp [eventsOf]

lemma eventsOf_snoc_ne {m n : ℕ} (hne : m ≠ n) (i : S.Instr) (r : S.Resp i) :
    eventsOf m (es ++ [⟨n, i, r⟩]) = eventsOf m es := by
  simp [eventsOf, hne.symm]

/-! ## The past of a thread -/

/-- The predicate transformer of an instruction: it may be performed after the given past, and any
answer becomes part of the past. -/
def pastSpec (may : List (Event S) → S.Instr → Prop) (n : ℕ) (i : S.Instr)
    (past : List (Event S)) (K : S.Resp i → List (Event S) → Prop) : Prop :=
  may past i ∧ ∀ r, K r (past ++ [⟨n, i, r⟩])

lemma mono_pastSpec (may : List (Event S) → S.Instr → Prop) (n : ℕ) :
    Prog.MonoSpec (pastSpec may n) := by
  intro i past K K' hK h
  exact ⟨h.1, fun r => hK r _ (h.2 r)⟩

/-- The thread `n` with the given past may run `p`, and ends with an answer and a past in `Q`. -/
def Tracks (may : List (Event S) → S.Instr → Prop) (n : ℕ) (past : List (Event S))
    (p : Prog S.Instr S.Resp α) (Q : α → List (Event S) → Prop) : Prop :=
  p.wp (pastSpec may n) Q past

namespace Tracks

variable {may : List (Event S) → S.Instr → Prop} {n : ℕ} {past : List (Event S)}

lemma ret {a : α} {Q : α → List (Event S) → Prop} (h : Q a past) :
    Tracks may n past (.ret a : Prog S.Instr S.Resp α) Q :=
  h

/-- One instruction and the rest. -/
lemma step {i : S.Instr} {f : S.Resp i → Prog S.Instr S.Resp α}
    {Q : α → List (Event S) → Prop} (hmay : may past i)
    (hf : ∀ r, Tracks may n (past ++ [⟨n, i, r⟩]) (f r) Q) :
    Tracks may n past (Prog.perform i >>= f) Q :=
  ⟨hmay, hf⟩

/-- A weaker postcondition. -/
lemma mono {p : Prog S.Instr S.Resp α} {Q Q' : α → List (Event S) → Prop}
    (h : Tracks may n past p Q) (hQ : ∀ a g, Q a g → Q' a g) : Tracks may n past p Q' :=
  Prog.wp_mono (mono_pastSpec may n) hQ h

/-- Two programs in sequence. -/
lemma bind {p : Prog S.Instr S.Resp α} {f : α → Prog S.Instr S.Resp β}
    {Q : α → List (Event S) → Prop} {Q' : β → List (Event S) → Prop}
    (h : Tracks may n past p Q) (hf : ∀ a g, Q a g → Tracks may n g (f a) Q') :
    Tracks may n past (p >>= f) Q' :=
  Prog.wp_bind.mpr (h.mono hf)

/-- Without conditions there is nothing to track. -/
lemma of_forall (hmay : ∀ past i, may past i) (p : Prog S.Instr S.Resp α) :
    Tracks may n past p fun _ _ => True := by
  induction p generalizing past with
  | ret a => trivial
  | act i k ih => exact ⟨hmay past i, fun r => ih r⟩

lemma top (p : Prog S.Instr S.Resp α) :
    Tracks (fun _ _ => True) n past p fun _ _ => True :=
  of_forall (fun _ _ => trivial) p

/-- What a program can return is known of its answer. -/
lemma returns {p : Prog S.Instr S.Resp α} {Q : α → List (Event S) → Prop} {P : α → Prop}
    (h : Tracks may n past p Q) (hp : p.Returns P) :
    Tracks may n past p fun a g => P a ∧ Q a g := by
  induction p generalizing past with
  | ret a => exact ⟨hp, h⟩
  | act i k ih => exact ⟨h.1, fun r => ih r (h.2 r) (hp r)⟩

end Tracks

/-- What is known of the threads of a configuration and of a trace that leads to it, when programs
are run as the requests allow. -/
structure Tracked (may : ℕ → S.Req → List (Event S) → S.Instr → Prop)
    (Q : ℕ → S.Req → S.Ans → List (Event S) → Prop) (c : Config S) (es : List (Event S)) :
    Prop where
  /-- The numbers of the threads. -/
  numbered : c.Numbered
  /-- A running thread can finish its program as allowed. -/
  running : ∀ n id req p, c.threads[n]? = some ⟨id, req, .running p⟩ →
    Tracks (may n req) n (eventsOf n es) p (Q n req)
  /-- An answered thread has a past that fits its answer. -/
  done : ∀ n id req a, c.threads[n]? = some ⟨id, req, .done a⟩ → Q n req a (eventsOf n es)
  /-- Every event belongs to a thread that was allowed to perform it at the time. -/
  events : ∀ es₁ e es₂, es = es₁ ++ e :: es₂ →
    ∃ t, c.threads[e.thread]? = some t ∧ may e.thread t.req (eventsOf e.thread es₁) e.instr

namespace Tracked

variable {may : ℕ → S.Req → List (Event S) → S.Instr → Prop}
  {Q : ℕ → S.Req → S.Ans → List (Event S) → Prop}

/-- The events of a thread that was not there yet. -/
lemma eventsOf_fresh (h : Tracked may Q c es) {n : ℕ} (hn : c.threads.length ≤ n) :
    eventsOf n es = [] := by
  refine List.filter_eq_nil_iff.mpr ?_
  intro e he
  obtain ⟨es₁, es₂, hes⟩ := List.append_of_mem he
  obtain ⟨t, ht, _⟩ := h.events es₁ e es₂ hes
  obtain ⟨hlt, _⟩ := List.getElem?_eq_some_iff.mp ht
  simp only [decide_eq_true_eq]
  omega

/-- Replacing a thread by one that serves the same request. -/
lemma events_set {n : ℕ} {t : Thread S} (t' : Thread S)
    (ht : c.threads[n]? = some t) (hreq : t'.req = t.req) {e : Event S} {es₁ : List (Event S)}
    (he : ∃ u, c.threads[e.thread]? = some u ∧
      may e.thread u.req (eventsOf e.thread es₁) e.instr) :
    ∃ u, (c.threads.set n t')[e.thread]? = some u ∧
      may e.thread u.req (eventsOf e.thread es₁) e.instr := by
  obtain ⟨u, hu, hmay⟩ := he
  by_cases hne : n = e.thread
  · rw [← hne, ht] at hu
    obtain rfl := Option.some.inj hu
    obtain ⟨hlt, _⟩ := List.getElem?_eq_some_iff.mp ht
    refine ⟨t', ?_, hreq ▸ hmay⟩
    rw [← hne, List.getElem?_set_self hlt]
  · exact ⟨u, by rw [List.getElem?_set_ne hne, hu], hmay⟩

lemma issue (h : Tracked may Q c es)
    (hprog : ∀ n req, Tracks (may n req) n [] (S.prog req) (Q n req)) {c' : Config S}
    {req : S.Req} (hn : c.next (.issue req) = some c') (hnum : c'.Numbered) :
    Tracked may Q c' es := by
  obtain ⟨s, _, rfl⟩ := next_issue hn
  refine ⟨hnum, ?_, ?_, ?_⟩
  · intro m id req' p ht
    rcases getElem?_issue_cases ht with ht | ⟨rfl, heq⟩
    · exact h.running m id req' p ht
    · rw [Thread.start] at heq
      cases heq
      rw [h.eventsOf_fresh le_rfl]
      exact hprog _ _
  · intro m id req' a ht
    rcases getElem?_issue_cases ht with ht | ⟨rfl, heq⟩
    · exact h.done m id req' a ht
    · cases heq
  · intro es₁ e es₂ hes
    obtain ⟨t, ht, hmay⟩ := h.events es₁ e es₂ hes
    obtain ⟨hlt, _⟩ := List.getElem?_eq_some_iff.mp ht
    exact ⟨t, by rw [List.getElem?_append_left hlt, ht], hmay⟩

lemma step (h : Tracked may Q c es) {n id : ℕ} {req : S.Req} {i : S.Instr}
    {k : S.Resp i → Prog S.Instr S.Resp S.Ans}
    (ht : c.threads[n]? = some ⟨id, req, .running (.act i k)⟩) (r : S.Resp i) (s : S.State)
    (hnum : Config.Numbered ⟨s, c.threads.set n ⟨id, req, .running (k r)⟩⟩) :
    Tracked may Q ⟨s, c.threads.set n ⟨id, req, .running (k r)⟩⟩
      (es ++ [⟨id, i, r⟩]) := by
  have hid : id = n := h.numbered n _ ht
  subst hid
  obtain ⟨hmay, hk⟩ := h.running id id req _ ht
  refine ⟨hnum, ?_, ?_, ?_⟩
  · intro m id' req' p htm
    rcases getElem?_set_cases htm with ⟨rfl, heq⟩ | ⟨hne, htm⟩
    · cases heq
      rw [eventsOf_snoc_self]
      exact hk r
    · rw [eventsOf_snoc_ne hne]
      exact h.running m id' req' p htm
  · intro m id' req' a htm
    rcases getElem?_set_cases htm with ⟨rfl, heq⟩ | ⟨hne, htm⟩
    · cases heq
    · rw [eventsOf_snoc_ne hne]
      exact h.done m id' req' a htm
  · intro es₁ e es₂ hes
    refine events_set ⟨id, req, .running (k r)⟩ ht rfl ?_
    rcases split_snoc hes with ⟨rfl, rfl, _⟩ | ⟨es₃, hes, _⟩
    · exact ⟨_, ht, hmay⟩
    · exact h.events es₁ e es₃ hes

lemma answer (h : Tracked may Q c es) {c' : Config S} {n : ℕ}
    (hn : c.next (.answer n) = some c') (hnum : c'.Numbered) : Tracked may Q c' es := by
  obtain ⟨id, req, a, ht, rfl⟩ := next_answer hn
  refine ⟨hnum, ?_, ?_, ?_⟩
  · intro m id' req' p htm
    rcases getElem?_set_cases htm with ⟨rfl, heq⟩ | ⟨_, htm⟩
    · cases heq
    · exact h.running m id' req' p htm
  · intro m id' req' a' htm
    rcases getElem?_set_cases htm with ⟨rfl, heq⟩ | ⟨_, htm⟩
    · cases heq
      exact h.running m id req _ ht
    · exact h.done m id' req' a' htm
  · intro es₁ e es₂ hes
    exact events_set ⟨id, req, .done a⟩ ht rfl (h.events es₁ e es₂ hes)

end Tracked

/-- Soundness: if every program tracks, then along every run the pasts of the threads are as the
logic says. -/
theorem Traced.tracked {may : ℕ → S.Req → List (Event S) → S.Instr → Prop}
    {Q : ℕ → S.Req → S.Ans → List (Event S) → Prop} (h₀ : c₀.threads = [])
    (hprog : ∀ n req, Tracks (may n req) n [] (S.prog req) (Q n req))
    (h : Traced allow c₀ c es) :
    Tracked may Q c es := by
  have hnum : ∀ {c es}, Traced allow c₀ c es → c.Numbered := by
    intro c es htr
    refine htr.run.numbered ?_
    intro n t ht
    rw [h₀] at ht
    cases ht
  induction h with
  | refl =>
    refine ⟨hnum .refl, ?_, ?_, ?_⟩
    · intro n id req p ht
      rw [h₀] at ht
      cases ht
    · intro n id req a ht
      rw [h₀] at ht
      cases ht
    · intro es₁ e es₂ hes
      simp at hes
  | issue req htr ha hn ih => exact ih.issue hprog hn (hnum (.issue req htr ha hn))
  | step ch htr ha ht he ih => exact ih.step ht _ _ (hnum (.step ch htr ha ht he))
  | answer n htr ha hn ih => exact ih.answer hn (hnum (.answer n htr ha hn))

/-! ## The rest of a program -/

/-- The thread `n` that runs `p` performs the events and has the second program left. -/
inductive Plays (n : ℕ) : Prog S.Instr S.Resp α → List (Event S) → Prog S.Instr S.Resp α →
    Prop where
  /-- No events. -/
  | refl (p : Prog S.Instr S.Resp α) : Plays n p [] p
  /-- One more event at the front. -/
  | act {i : S.Instr} {k : S.Resp i → Prog S.Instr S.Resp α} {r : S.Resp i} {es : List (Event S)}
      {q : Prog S.Instr S.Resp α} :
      Plays n (k r) es q → Plays n (.act i k) (⟨n, i, r⟩ :: es) q

namespace Plays

variable {n : ℕ} {p q q' : Prog S.Instr S.Resp α} {es es' : List (Event S)}

/-- Events add up. -/
lemma trans {q' : Prog S.Instr S.Resp α} (h : Plays n p es q) (h' : Plays n q es' q') :
    Plays n p (es ++ es') q' := by
  induction h with
  | refl => exact h'
  | act _ ih => exact .act (ih h')

/-- What is left after some of the events performs the others. -/
lemma cancel (h : Plays n p es q) (h' : Plays n p (es ++ es') q') : Plays n q es' q' := by
  induction h with
  | refl => exact h'
  | act _ ih =>
    cases h' with
    | act h' => exact ih h'

/-- The first of two programs in sequence. -/
lemma bind {f : α → Prog S.Instr S.Resp β} (h : Plays n p es q) :
    Plays n (p >>= f) es (q >>= f) := by
  induction h with
  | refl => exact .refl _
  | act _ ih => exact .act ih

/-- The end of a play, up to an equation. -/
lemma congr (h : Plays n p es q) (hq : q = q') : Plays n p es q' :=
  hq ▸ h

/-- The first instruction of a program that has returned. -/
lemma of_act {i : S.Instr} {k : S.Resp i → Prog S.Instr S.Resp α} {a : α}
    (h : Plays n (.act i k) es (.ret a)) :
    ∃ r es', es = ⟨n, i, r⟩ :: es' ∧ Plays n (k r) es' (.ret a) := by
  cases h with
  | act h => exact ⟨_, _, rfl, h⟩

/-- The first instruction was performed or the whole program is left. -/
lemma first {i : S.Instr} {k : S.Resp i → Prog S.Instr S.Resp α} (h : Plays n (.act i k) es q) :
    (es = [] ∧ q = .act i k) ∨
      ∃ r es', es = ⟨n, i, r⟩ :: es' ∧ Plays n (k r) es' q := by
  cases h with
  | refl => exact Or.inl ⟨rfl, rfl⟩
  | act h => exact Or.inr ⟨_, _, rfl, h⟩

/-- Without events the whole program is left. -/
lemma of_nil (h : Plays n p [] q) : q = p := by
  cases h
  rfl

/-- A program that returns at once has performed nothing. -/
lemma of_ret {a b : α} (h : Plays n (.ret a : Prog S.Instr S.Resp α) es (.ret b)) :
    es = [] ∧ b = a := by
  cases h
  exact ⟨rfl, rfl⟩

lemma ret_events {a : α} (h : Plays n (.ret a : Prog S.Instr S.Resp α) es q) : es = [] := by
  cases h
  rfl

/-- A program in sequence with another one has returned first. -/
lemma of_bind {f : α → Prog S.Instr S.Resp β} {b : β} (h : Plays n (p >>= f) es (.ret b)) :
    ∃ es₁ es₂ a, es = es₁ ++ es₂ ∧ Plays n p es₁ (.ret a) ∧
      Plays n (f a) es₂ (.ret b) := by
  induction p generalizing es with
  | ret a => exact ⟨[], es, a, rfl, .refl _, h⟩
  | act i k ih =>
    cases h with
    | act h =>
      obtain ⟨es₁, es₂, a, rfl, hp, hf⟩ := ih _ h
      exact ⟨_ :: es₁, es₂, a, rfl, .act hp, hf⟩

/-- What a program has performed before it returns. -/
lemma performs {P : S.Instr → Prop} (h : Plays n p es q) (hp : p.Performs P) :
    ∀ e ∈ es, P e.instr := by
  induction h with
  | refl => simp
  | act _ ih =>
    intro e he
    rcases List.mem_cons.mp he with rfl | he
    · exact hp.1
    · exact ih (hp.2 _) e he

/-- What every instruction of a program keeps true of it is true of what is left of it. -/
lemma keeps {I : Prog S.Instr S.Resp α → Prop}
    (hstep : ∀ {i : S.Instr} {k : S.Resp i → Prog S.Instr S.Resp α} (r : S.Resp i),
      I (.act i k) → I (k r)) (h : Plays n p es q) (hp : I p) : I q := by
  induction h with
  | refl => exact hp
  | act _ ih => exact ih (hstep _ hp)

/-- What a program can return is known of what it has returned. -/
lemma returns {P : α → Prop} {a : α} (h : Plays n p es (.ret a)) (hp : p.Returns P) : P a := by
  induction p generalizing es with
  | ret b =>
    obtain ⟨_, rfl⟩ := h.of_ret
    exact hp
  | act i k ih =>
    obtain ⟨r, es', _, hk⟩ := h.of_act
    exact ih r hk (hp r)

/-- What a program can return, if the answers are as they were, is known of what it has returned. -/
lemma returnsIf {good : (i : S.Instr) → S.Resp i → Prop} {P : α → Prop} {a : α}
    (h : Plays n p es (.ret a)) (hp : p.ReturnsIf good P)
    (hgood : ∀ e ∈ es, good e.instr e.resp) : P a := by
  induction p generalizing es with
  | ret b =>
    obtain ⟨_, rfl⟩ := h.of_ret
    exact hp
  | act i k ih =>
    obtain ⟨r, es', rfl, hk⟩ := h.of_act
    have hr : good i r := hgood _ List.mem_cons_self
    exact ih r hk (hp r hr) fun e he => hgood e (List.mem_cons_of_mem _ he)

end Plays

/-! ## What a program has done when it returns -/

/-- Whatever the thread `n` performs when it runs the program to its end, the answer and the events
are in `R`. -/
def Reports (n : ℕ) (p : Prog S.Instr S.Resp α) (R : α → List (Event S) → Prop) : Prop :=
  ∀ es a, Plays n p es (.ret a) → R a es

namespace Reports

variable {n : ℕ}

lemma ret {a : α} {R : α → List (Event S) → Prop} (h : R a []) :
    Reports n (.ret a : Prog S.Instr S.Resp α) R := by
  intro es b hplay
  obtain ⟨rfl, rfl⟩ := hplay.of_ret
  exact h

lemma any (p : Prog S.Instr S.Resp α) : Reports n p fun _ _ => True :=
  fun _ _ _ => trivial

lemma mono {p : Prog S.Instr S.Resp α} {R R' : α → List (Event S) → Prop} (h : Reports n p R)
    (hR : ∀ a es, R a es → R' a es) : Reports n p R' :=
  fun es a hplay => hR a es (h es a hplay)

/-- One instruction and the rest. -/
lemma step {i : S.Instr} {f : S.Resp i → Prog S.Instr S.Resp α}
    {R : α → List (Event S) → Prop}
    (hf : ∀ r, Reports n (f r) fun a es => R a (⟨n, i, r⟩ :: es)) :
    Reports n (Prog.perform i >>= f) R := by
  intro es a hplay
  obtain ⟨r, es', rfl, hrest⟩ := Plays.of_act hplay
  exact hf r es' a hrest

/-- Two programs in sequence. -/
lemma bind {p : Prog S.Instr S.Resp α} {f : α → Prog S.Instr S.Resp β}
    {R : α → List (Event S) → Prop} {R' : β → List (Event S) → Prop} (h : Reports n p R)
    (hf : ∀ a es, R a es → Reports n (f a) fun b es' => R' b (es ++ es')) :
    Reports n (p >>= f) R' := by
  intro es b hplay
  obtain ⟨es₁, es₂, a, rfl, hp, hrest⟩ := hplay.of_bind
  exact hf a es₁ (h es₁ a hp) es₂ b hrest

/-- Both branches of a conditional. -/
lemma ite {c : Prop} {_ : Decidable c} {p q : Prog S.Instr S.Resp α}
    {R : α → List (Event S) → Prop} (hp : c → Reports n p R) (hq : ¬c → Reports n q R) :
    Reports n (if c then p else q) R := by
  split
  · next hc => exact hp hc
  · next hc => exact hq hc

end Reports

/-- How far a thread has got with its program. -/
def Phase.rest : Phase S → Prog S.Instr S.Resp S.Ans
  | .running p => p
  | .done a => .ret a

/-- The events of a thread lead from the program of its request to what is left of it. -/
lemma Traced.plays (h₀ : c₀.threads = []) (h : Traced allow c₀ c es) {n : ℕ} {t : Thread S}
    (ht : c.threads[n]? = some t) : Plays n (S.prog t.req) (eventsOf n es) t.phase.rest := by
  induction h generalizing n t with
  | refl =>
    rw [h₀] at ht
    cases ht
  | @issue c c' es req htr ha hn ih =>
    obtain ⟨s, _, rfl⟩ := next_issue hn
    rcases getElem?_issue_cases ht with ht | ⟨rfl, rfl⟩
    · exact ih ht
    · have htop : Tracked (fun _ _ _ _ => True) (fun _ _ _ _ => True) c es :=
        htr.tracked h₀ fun n req => Tracks.top _
      rw [htop.eventsOf_fresh le_rfl]
      exact .refl _
  | @step c es m id req i k r s ch htr ha htm he ih =>
    have hid : id = m := by
      refine htr.run.numbered ?_ m _ htm
      intro n t ht
      rw [h₀] at ht
      cases ht
    subst hid
    rcases getElem?_set_cases ht with ⟨rfl, rfl⟩ | ⟨hne, ht⟩
    · rw [eventsOf_snoc_self]
      exact (ih htm).trans (.act (.refl _))
    · rw [eventsOf_snoc_ne hne]
      exact ih ht
  | answer m _ _ hn ih =>
    obtain ⟨id, req, a, htm, rfl⟩ := next_answer hn
    rcases getElem?_set_cases ht with ⟨rfl, rfl⟩ | ⟨_, ht⟩
    · have hplay := ih htm
      exact hplay
    · exact ih ht

/-- An answered thread has performed what its program reports. -/
lemma Traced.reported (h₀ : c₀.threads = []) (h : Traced allow c₀ c es) {n id : ℕ}
    {req : S.Req} {a : S.Ans} {R : S.Ans → List (Event S) → Prop}
    (hR : Reports n (S.prog req) R) (ht : c.threads[n]? = some ⟨id, req, .done a⟩) :
    R a (eventsOf n es) :=
  hR _ _ (h.plays h₀ ht)

/-- Traces compose. -/
lemma Traced.trans {c₁ : Config S} {es₁ : List (Event S)} (h : Traced allow c₀ c₁ es₁)
    (h' : Traced allow c₁ c es) : Traced allow c₀ c (es₁ ++ es) := by
  induction h' with
  | refl =>
    rw [List.append_nil]
    exact h
  | issue req _ ha hn ih => exact .issue req ih ha hn
  | step ch _ ha ht he ih =>
    rw [← List.append_assoc]
    exact .step ch ih ha ht he
  | answer n _ ha hn ih => exact .answer n ih ha hn

/-- Fewer restrictions allow more traces; the actions may be restricted by what they lead to. -/
lemma Traced.mono_next {allow' : Config S → Action S → Prop}
    (h : ∀ c es a c', Traced allow c₀ c es → allow c a → c.next a = some c' → allow' c a)
    (htr : Traced allow c₀ c es) : Traced allow' c₀ c es := by
  induction htr with
  | refl => exact .refl
  | issue req htr ha hn ih => exact .issue req ih (h _ _ _ _ htr ha hn) hn
  | step ch htr ha ht he ih => exact .step ch ih (h _ _ _ _ htr ha (next_of_exec ht he)) ht he
  | answer n htr ha hn ih => exact .answer n ih (h _ _ _ _ htr ha hn) hn

lemma Traced.any (h : Traced allow c₀ c es) : Traced anyAction c₀ c es :=
  h.mono_next fun _ _ _ _ _ _ _ => trivial

lemma eventsOf_append (n : ℕ) (es es' : List (Event S)) :
    eventsOf n (es ++ es') = eventsOf n es ++ eventsOf n es' :=
  List.filter_append ..

end Service

end Conc
