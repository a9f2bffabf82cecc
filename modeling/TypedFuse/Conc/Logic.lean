import TypedFuse.Conc.Service

/-!
# A token logic for services of concurrent requests

Every thread owns a multiset of ghost tokens, and the invariant relates the shared state to the sum
of all tokens.  An instruction is used under a contract, which says what the thread gives up and
what it receives for the answer; the tokens of all other threads are a frame that the instruction
has to leave valid.  Two more things are tracked: a token may be bound to the thread that owns it,
and an answered request may leave a fact behind that stays true.

`Logic.holds_of_run` is the soundness of this style of reasoning: if instructions, requests and
answers respect the invariant, then in every configuration of every run the invariant holds of
tokens with which each running thread can finish its program.
-/

namespace Conc

open Service

/-- What a thread gives up for an instruction, and what it may receive with an answer. -/
structure Contract (T R : Type) where
  /-- The tokens the thread gives up. -/
  take : Multiset T
  /-- The tokens the thread may receive with an answer. -/
  give : R → Multiset T → Prop

/-- The contract of an instruction that needs no tokens and yields none. -/
def Contract.free {T R : Type} : Contract T R where
  take := 0
  give := fun _ g => g = 0

/-- A token logic: what the tokens mean, what instructions do to them, and what a thread must be
left with when its answer is delivered. -/
structure Logic (S : Service) (T : Type) where
  /-- The meaning of the sum of all tokens. -/
  inv : S.State → Multiset T → Prop
  /-- Whether a thread may own a token. -/
  own : ℕ → T → Prop
  /-- The contracts under which a thread may use an instruction. -/
  contract : ℕ → (i : S.Instr) → Contract T (S.Resp i) → Prop
  /-- The tokens a thread starts with. -/
  init : ℕ → S.Req → Multiset T
  /-- What the tokens of a thread must satisfy when its program returns. -/
  post : ℕ → S.Req → S.Ans → Multiset T → Prop
  /-- What remains true of an answered request. -/
  fact : ℕ → S.Req → S.Ans → S.State → Prop

namespace Logic

variable {S : Service} {T : Type} {α : Type}

/-- The predicate transformer of an instruction: use it under one of its contracts and keep all
other tokens. -/
def spec (L : Logic S T) (n : ℕ) (i : S.Instr) (g : Multiset T)
    (K : S.Resp i → Multiset T → Prop) : Prop :=
  ∃ C f, L.contract n i C ∧ g = C.take + f ∧ ∀ r g', C.give r g' → K r (g' + f)

lemma mono_spec (L : Logic S T) (n : ℕ) : Prog.MonoSpec (L.spec n) := by
  intro i g K K' hK h
  obtain ⟨C, f, hC, hg, hgive⟩ := h
  exact ⟨C, f, hC, hg, fun r g' hr => hK r _ (hgive r g' hr)⟩

/-- A thread can run `p` from the tokens `g` and ends with an answer and tokens in `Q`. -/
def Meets (L : Logic S T) (n : ℕ) (g : Multiset T) (p : Prog S.Instr S.Resp α)
    (Q : α → Multiset T → Prop) : Prop :=
  p.wp (L.spec n) Q g

/-- Use a single instruction under a contract. -/
lemma meets_perform {L : Logic S T} {n : ℕ} {i : S.Instr} {C : Contract T (S.Resp i)}
    (hC : L.contract n i C) {g f : Multiset T} (hg : g = C.take + f)
    {Q : S.Resp i → Multiset T → Prop} (hQ : ∀ r g', C.give r g' → Q r (g' + f)) :
    L.Meets n g (Prog.perform i) Q :=
  ⟨C, f, hC, hg, hQ⟩

/-- Weaken the postcondition. -/
lemma Meets.mono {L : Logic S T} {n : ℕ} {g : Multiset T} {p : Prog S.Instr S.Resp α}
    {Q Q' : α → Multiset T → Prop} (h : L.Meets n g p Q) (hQ : ∀ a g', Q a g' → Q' a g') :
    L.Meets n g p Q' :=
  Prog.wp_mono (L.mono_spec n) hQ h

/-- Run two programs in sequence. -/
lemma Meets.bind {β : Type} {L : Logic S T} {n : ℕ} {g : Multiset T}
    {p : Prog S.Instr S.Resp α} {f : α → Prog S.Instr S.Resp β}
    {Q : α → Multiset T → Prop} {Q' : β → Multiset T → Prop} (h : L.Meets n g p Q)
    (hf : ∀ a g', Q a g' → L.Meets n g' (f a) Q') : L.Meets n g (p >>= f) Q' :=
  Prog.wp_bind.mpr (h.mono hf)

/-- Tokens that a program does not need are kept. -/
lemma Meets.frame {L : Logic S T} {n : ℕ} {g : Multiset T} {p : Prog S.Instr S.Resp α}
    {Q : α → Multiset T → Prop} (h : L.Meets n g p Q) (f : Multiset T) :
    L.Meets n (g + f) p fun a g' => ∃ g₀, g' = g₀ + f ∧ Q a g₀ := by
  induction p generalizing g with
  | ret a => exact ⟨g, rfl, h⟩
  | act i k ih =>
    obtain ⟨C, f', hC, rfl, hgive⟩ := h
    refine ⟨C, f' + f, hC, add_assoc _ _ _, ?_⟩
    intro r g' hr
    have hk := ih r (hgive r g' hr)
    rw [add_assoc] at hk
    exact hk

/-- Run a program that needs some of the tokens, then another one with the rest and what the first
one leaves. -/
lemma Meets.bind_frame {β : Type} {L : Logic S T} {n : ℕ} {g g₀ f₀ : Multiset T}
    {p : Prog S.Instr S.Resp α} {f : α → Prog S.Instr S.Resp β}
    {Q : α → Multiset T → Prop} {Q' : β → Multiset T → Prop} (h : L.Meets n g₀ p Q)
    (hg : g = g₀ + f₀) (hf : ∀ a g', Q a g' → L.Meets n (g' + f₀) (f a) Q') :
    L.Meets n g (p >>= f) Q' := by
  subst hg
  refine (h.frame f₀).bind ?_
  rintro a g' ⟨g₁, rfl, hQ⟩
  exact hf a g₁ hQ

/-- A running thread can finish its program with its tokens; an answered one has none left. -/
def Owns (L : Logic S T) (t : Thread S) (g : Multiset T) : Prop :=
  (∀ x ∈ g, L.own t.id x) ∧
    match t.phase with
    | .running p => L.Meets t.id g p (L.post t.id t.req)
    | .done _ => g = 0

/-- The threads are numbered and own tokens whose sum satisfies the invariant, and the facts about
answered requests are true. -/
structure Holds (L : Logic S T) (c : Config S) : Prop where
  /-- The numbers of the threads. -/
  numbered : c.Numbered
  /-- The tokens of the threads. -/
  tokens : ∃ gs, List.Forall₂ L.Owns c.threads gs ∧ L.inv c.state gs.sum
  /-- The facts about answered requests. -/
  facts : ∀ (n : ℕ) (t : Thread S) (a : S.Ans), c.threads[n]? = some t → t.phase = .done a →
    L.fact t.id t.req a c.state

/-- A token of the sum belongs to one of the threads. -/
lemma exists_owner {A : Type} {own : A → Multiset T → Prop} {ts : List A}
    {gs : List (Multiset T)} (h : List.Forall₂ own ts gs) {x : T} (hx : x ∈ gs.sum) :
    ∃ (n : ℕ) (t : A) (g : Multiset T), ts[n]? = some t ∧ own t g ∧ x ∈ g := by
  induction h with
  | nil => simp at hx
  | @cons t₀ g₀ ts gs h₀ hs ih =>
    rw [List.sum_cons] at hx
    rcases Multiset.mem_add.mp hx with hx | hx
    · exact ⟨0, t₀, g₀, rfl, h₀, hx⟩
    · obtain ⟨n, t, g, ht, hown, hxg⟩ := ih hx
      exact ⟨n + 1, t, g, ht, hown, hxg⟩

/-- Split off the tokens of one thread; the remaining sum belongs to the other threads and is a
frame for whatever replaces it. -/
lemma exists_frame {A : Type} {own : A → Multiset T → Prop} {ts : List A}
    {gs : List (Multiset T)} (h : List.Forall₂ own ts gs) {n : ℕ} {t : A}
    (ht : ts[n]? = some t) :
    ∃ g f, own t g ∧ gs.sum = g + f ∧
      (∀ x ∈ f, ∃ (m : ℕ) (t' : A) (g' : Multiset T),
        m ≠ n ∧ ts[m]? = some t' ∧ own t' g' ∧ x ∈ g') ∧
      ∀ t' g', own t' g' → ∃ gs', List.Forall₂ own (ts.set n t') gs' ∧
        gs'.sum = g' + f := by
  induction h generalizing n with
  | nil => simp at ht
  | @cons t₀ g₀ ts gs h₀ hs ih =>
    cases n with
    | zero =>
      obtain rfl : t₀ = t := by simpa using ht
      refine ⟨g₀, gs.sum, h₀, by simp, ?_, ?_⟩
      · intro x hx
        obtain ⟨m, t', g', ht', hown, hxg⟩ := exists_owner hs hx
        exact ⟨m + 1, t', g', Nat.succ_ne_zero m, ht', hown, hxg⟩
      · intro t' g' hown
        exact ⟨g' :: gs, by simpa using ⟨hown, hs⟩, by simp⟩
    | succ n =>
      obtain ⟨g, f, hg, hsum, hframe, hset⟩ := ih (by simpa using ht)
      refine ⟨g, g₀ + f, hg, ?_, ?_, ?_⟩
      · rw [List.sum_cons, hsum, add_left_comm]
      · intro x hx
        rcases Multiset.mem_add.mp hx with hx | hx
        · exact ⟨0, t₀, g₀, (Nat.succ_ne_zero n).symm, rfl, h₀, hx⟩
        · obtain ⟨m, t', g', hne, ht', hown, hxg⟩ := hframe x hx
          exact ⟨m + 1, t', g', fun h => hne (Nat.succ.inj h), ht', hown, hxg⟩
      · intro t' g' hown
        obtain ⟨gs', hgs', hsum'⟩ := hset t' g' hown
        exact ⟨g₀ :: gs', by simpa using ⟨h₀, hgs'⟩, by
          rw [List.sum_cons, hsum', add_left_comm]⟩

/-- The tokens of one thread of a numbered configuration, and the frame of the others. -/
lemma Holds.split {L : Logic S T} {c : Config S} (h : L.Holds c) {n : ℕ} {t : Thread S}
    (ht : c.threads[n]? = some t) :
    ∃ g f, L.Owns t g ∧ L.inv c.state (g + f) ∧
      (∀ x ∈ f, ∃ m, m ≠ t.id ∧ L.own m x) ∧
      ∀ t' g', L.Owns t' g' →
        ∃ gs', List.Forall₂ L.Owns (c.threads.set n t') gs' ∧ gs'.sum = g' + f := by
  obtain ⟨gs, hown, hinv⟩ := h.tokens
  obtain ⟨g, f, hg, hsum, hframe, hset⟩ := exists_frame hown ht
  refine ⟨g, f, hg, hsum ▸ hinv, ?_, hset⟩
  intro x hx
  obtain ⟨m, t', g', hne, ht', hown', hxg⟩ := hframe x hx
  refine ⟨t'.id, ?_, hown'.1 x hxg⟩
  rw [h.numbered m t' ht', h.numbered n t ht]
  exact hne

/-- What a token logic has to satisfy along the runs from `c₀` through allowed actions. -/
structure Sound (L : Logic S T) (allow : Config S → Action S → Prop) (c₀ : Config S) :
    Prop where
  /-- The tokens of a contract may be owned by the thread. -/
  own_give : ∀ {n i C r g x}, L.contract n i C → C.give r g → x ∈ g → L.own n x
  /-- The first tokens of a thread may be owned by it. -/
  own_init : ∀ {n req x}, x ∈ L.init n req → L.own n x
  /-- An instruction keeps the invariant in every frame and honours its contract. -/
  exec : ∀ {c n id req i k ch r s f C}, Run allow c₀ c →
    c.threads[n]? = some ⟨id, req, .running (.act i k)⟩ → allow c (.step n ch) →
    S.exec id i ch c.state = some (r, s) → L.contract id i C → L.inv c.state (C.take + f) →
    ∃ g, C.give r g ∧ L.inv s (g + f)
  /-- The program of a request can be run from the first tokens of its thread. -/
  prog : ∀ {c req}, Run allow c₀ c → allow c (.issue req) →
    L.Meets c.threads.length (L.init c.threads.length req) (S.prog req)
      (L.post c.threads.length req)
  /-- A new request brings the first tokens of its thread. -/
  issue : ∀ {c req s f}, Run allow c₀ c → allow c (.issue req) →
    S.issue c.threads.length req c.state = some s → L.inv c.state f →
    L.inv s (L.init c.threads.length req + f)
  /-- An answer gives back all tokens of its thread and leaves its fact behind. -/
  answer : ∀ {c n id req a g f}, Run allow c₀ c →
    c.threads[n]? = some ⟨id, req, .running (.ret a)⟩ → allow c (.answer n) →
    (∀ x ∈ g, L.own id x) → (∀ x ∈ f, ∃ m, m ≠ id ∧ L.own m x) →
    L.inv c.state (g + f) → L.post id req a g →
    L.inv (S.answer id req a c.state) f ∧ L.fact id req a (S.answer id req a c.state)
  /-- Instructions keep the facts about answered requests. -/
  fact_exec : ∀ {n req a m i ch s r s'}, S.exec m i ch s = some (r, s') → L.fact n req a s →
    L.fact n req a s'
  /-- New requests keep the facts about answered requests. -/
  fact_issue : ∀ {n req a m req' s s'}, S.issue m req' s = some s' → L.fact n req a s →
    L.fact n req a s'
  /-- Answers keep the facts about other answered requests. -/
  fact_answer : ∀ {n req a m req' a' s}, L.fact n req a s →
    L.fact n req a (S.answer m req' a' s)

/-- A sound logic is sound from every configuration of a run on, with fewer actions. -/
lemma Sound.mono {L : Logic S T} {allow allow' : Config S → Action S → Prop}
    {c₀ c₁ : Config S} (h : L.Sound allow c₀) (hr : Run allow c₀ c₁)
    (hallow : ∀ c a, allow' c a → allow c a) :
    L.Sound allow' c₁ where
  own_give := h.own_give
  own_init := h.own_init
  exec := fun hr' ht ha => h.exec (hr.trans (hr'.mono hallow)) ht (hallow _ _ ha)
  prog := fun hr' ha => h.prog (hr.trans (hr'.mono hallow)) (hallow _ _ ha)
  issue := fun hr' ha => h.issue (hr.trans (hr'.mono hallow)) (hallow _ _ ha)
  answer := fun hr' ht ha => h.answer (hr.trans (hr'.mono hallow)) ht (hallow _ _ ha)
  fact_exec := h.fact_exec
  fact_issue := h.fact_issue
  fact_answer := h.fact_answer

/-- Replacing a thread by one whose fact is true keeps all facts true. -/
lemma facts_set {L : Logic S T} {ts : List (Thread S)} {s s' : S.State} {n : ℕ} {t₁ : Thread S}
    (h : ∀ (m : ℕ) (t : Thread S) (a : S.Ans), ts[m]? = some t → t.phase = .done a →
      L.fact t.id t.req a s)
    (hstable : ∀ {m req a}, L.fact m req a s → L.fact m req a s')
    (h₁ : ∀ a, t₁.phase = .done a → L.fact t₁.id t₁.req a s')
    (m : ℕ) (t : Thread S) (a : S.Ans) (ht : (ts.set n t₁)[m]? = some t)
    (hd : t.phase = .done a) : L.fact t.id t.req a s' := by
  rw [List.getElem?_set] at ht
  split at ht
  · split at ht
    · obtain rfl := Option.some.inj ht
      exact h₁ a hd
    · cases ht
  · exact hstable (h m t a ht hd)

/-- Soundness: along every run the threads own tokens that satisfy the invariant. -/
theorem holds_of_run {L : Logic S T} {allow : Config S → Action S → Prop} {c₀ c : Config S}
    (hs : L.Sound allow c₀) (h₀ : L.Holds c₀) (hr : Run allow c₀ c) : L.Holds c := by
  refine Run.invariant h₀ ?_ hr
  intro c a c' hr ha hn hc
  have hnum : c'.Numbered := Run.numbered h₀.numbered (.tail a hr ha hn)
  cases a with
  | issue req =>
    obtain ⟨gs, hown, hinv⟩ := hc.tokens
    obtain ⟨s, hs', rfl⟩ := next_issue hn
    have hinv' := hs.issue hr ha hs' hinv
    refine ⟨hnum, ⟨gs ++ [L.init c.threads.length req], ?_, by simpa [add_comm] using hinv'⟩,
      ?_⟩
    · exact List.rel_append hown (.cons ⟨fun x hx => hs.own_init hx, hs.prog hr ha⟩ .nil)
    · intro m t a ht hd
      simp only [List.getElem?_append] at ht
      split at ht
      · exact hs.fact_issue hs' (hc.facts m t a ht hd)
      · rw [List.getElem?_singleton] at ht
        split at ht
        · obtain rfl := Option.some.inj ht
          cases hd
        · cases ht
  | step n ch =>
    obtain ⟨id, req, i, k, r, s, ht, he, rfl⟩ := next_step hn
    obtain ⟨g, f, ⟨hmine, hg⟩, hinv, _, hset⟩ := hc.split ht
    obtain ⟨C, f', hC, rfl, hK⟩ := hg
    rw [add_assoc] at hinv
    obtain ⟨g', hgive, hinv'⟩ := hs.exec hr ht ha he hC hinv
    have hmine' : ∀ x ∈ g' + f', L.own id x := by
      intro x hx
      rcases Multiset.mem_add.mp hx with hx | hx
      · exact hs.own_give hC hgive hx
      · exact hmine x (Multiset.mem_add.mpr (Or.inr hx))
    obtain ⟨gs', hgs', hsum'⟩ :=
      hset ⟨id, req, .running (k r)⟩ (g' + f') ⟨hmine', hK r g' hgive⟩
    refine ⟨hnum, ⟨gs', hgs', by rw [hsum', add_assoc]; exact hinv'⟩, ?_⟩
    refine facts_set hc.facts (hs.fact_exec he) ?_
    intro a hd
    cases hd
  | answer n =>
    obtain ⟨id, req, a, ht, rfl⟩ := next_answer hn
    obtain ⟨g, f, ⟨hmine, hg⟩, hinv, hframe, hset⟩ := hc.split ht
    obtain ⟨hinv', hfact⟩ := hs.answer hr ht ha hmine hframe hinv hg
    obtain ⟨gs', hgs', hsum'⟩ :=
      hset ⟨id, req, .done a⟩ 0 ⟨fun x hx => by simp at hx, rfl⟩
    refine ⟨hnum, ⟨gs', hgs', by rw [hsum', zero_add]; exact hinv'⟩, ?_⟩
    refine facts_set hc.facts hs.fact_answer ?_
    intro a' hd
    obtain rfl : a = a' := by
      injection hd
    exact hfact

/-- The same logic with a stronger invariant. -/
def strengthen (L : Logic S T) (J : S.State → Multiset T → Prop) : Logic S T :=
  { L with inv := fun s g => L.inv s g ∧ J s g }

/-- A stronger invariant is sound if the added part is kept, given what is known without it. -/
theorem Sound.strengthen {L : Logic S T} {allow : Config S → Action S → Prop} {c₀ : Config S}
    {J : S.State → Multiset T → Prop} (h : L.Sound allow c₀)
    (hexec : ∀ {c : Config S} {n id : ℕ} {req i k ch r s f C g}, Run allow c₀ c →
      c.threads[n]? = some ⟨id, req, .running (.act i k)⟩ →
      S.exec id i ch c.state = some (r, s) →
      L.contract id i C → L.inv c.state (C.take + f) → J c.state (C.take + f) → C.give r g →
      L.inv s (g + f) → J s (g + f))
    (hissue : ∀ {c req s f}, Run allow c₀ c →
      S.issue c.threads.length req c.state = some s →
      J c.state f → J s (L.init c.threads.length req + f))
    (hanswer : ∀ {c : Config S} {n id : ℕ} {req a g f}, Run allow c₀ c →
      c.threads[n]? = some ⟨id, req, .running (.ret a)⟩ → L.post id req a g →
      J c.state (g + f) → J (S.answer id req a c.state) f) :
    (L.strengthen J).Sound allow c₀ where
  own_give := h.own_give
  own_init := h.own_init
  exec := by
    intro c n id req i k ch r s f C hr ht ha he hC hinv
    obtain ⟨g, hg, hnew⟩ := h.exec hr ht ha he hC hinv.1
    exact ⟨g, hg, hnew, hexec hr ht he hC hinv.1 hinv.2 hg hnew⟩
  prog := h.prog
  issue := fun hr ha hs hinv => ⟨h.issue hr ha hs hinv.1, hissue hr hs hinv.2⟩
  answer := by
    intro c n id req a g f hr ht ha hmine hframe hinv hpost
    obtain ⟨hnew, hfact⟩ := h.answer hr ht ha hmine hframe hinv.1 hpost
    exact ⟨⟨hnew, hanswer hr ht hpost hinv.2⟩, hfact⟩
  fact_exec := h.fact_exec
  fact_issue := h.fact_issue
  fact_answer := h.fact_answer

/-- A configuration without threads satisfies the logic if the invariant holds of no tokens. -/
lemma holds_nil {L : Logic S T} {s : S.State} (h : L.inv s 0) : L.Holds ⟨s, []⟩ :=
  ⟨fun m t ht => by simp at ht, ⟨[], .nil, by simpa using h⟩, fun m t a ht => by simp at ht⟩

/-- The invariant and the precondition of one running thread, with the frame of the others. -/
lemma Holds.thread {L : Logic S T} {c : Config S} (h : L.Holds c) {n id : ℕ} {req : S.Req}
    {p : Prog S.Instr S.Resp S.Ans} (ht : c.threads[n]? = some ⟨id, req, .running p⟩) :
    ∃ g f, L.Meets id g p (L.post id req) ∧ L.inv c.state (g + f) ∧
      ∀ x ∈ f, ∃ m, m ≠ id ∧ L.own m x := by
  obtain ⟨g, f, ⟨_, hg⟩, hinv, hframe, _⟩ := h.split ht
  exact ⟨g, f, hg, hinv, hframe⟩

/-- The instruction that a running thread is about to perform is covered by a contract. -/
lemma Holds.contract {L : Logic S T} {c : Config S} (h : L.Holds c) {n : ℕ} {req : S.Req}
    {i : S.Instr} (hat : c.At n req i) :
    ∃ id C f, L.contract id i C ∧ L.inv c.state (C.take + f) := by
  obtain ⟨id, k, ht⟩ := hat
  obtain ⟨g, f, ⟨C, f', hC, rfl, _⟩, hinv, _⟩ := h.thread ht
  exact ⟨id, C, f' + f, hC, by rwa [← add_assoc]⟩

/-- The invariant of some tokens. -/
lemma Holds.inv {L : Logic S T} {c : Config S} (h : L.Holds c) : ∃ g, L.inv c.state g := by
  obtain ⟨gs, _, hinv⟩ := h.tokens
  exact ⟨gs.sum, hinv⟩

/-- When all requests have been answered, no tokens are left. -/
lemma Holds.inv_quiet {L : Logic S T} {c : Config S} (h : L.Holds c) (hq : c.Quiet) :
    L.inv c.state 0 := by
  obtain ⟨gs, hown, hinv⟩ := h.tokens
  have hzero : gs.sum = 0 := by
    refine List.sum_eq_zero ?_
    intro g hg
    obtain ⟨n, hn⟩ := List.getElem?_of_mem hg
    obtain ⟨t, ht, hmine⟩ : ∃ t, c.threads[n]? = some t ∧ L.Owns t g := by
      have hlen := hown.length_eq
      obtain ⟨hlt, heq⟩ := List.getElem?_eq_some_iff.mp hn
      refine ⟨c.threads[n], List.getElem?_eq_getElem (hlen ▸ hlt), ?_⟩
      have hget := List.Forall₂.get hown (hlen ▸ hlt) hlt
      rw [List.get_eq_getElem, List.get_eq_getElem] at hget
      exact heq ▸ hget
    obtain ⟨a, ha⟩ := hq t (List.mem_of_getElem? ht)
    have hphase := hmine.2
    rw [ha] at hphase
    exact hphase
  rw [hzero] at hinv
  exact hinv

/-- The invariant of tokens each of which may be owned by some running thread. -/
lemma Holds.owner {L : Logic S T} {c : Config S} (h : L.Holds c) :
    ∃ g, L.inv c.state g ∧ ∀ x ∈ g, ∃ (n : ℕ) (t : Thread S),
      c.threads[n]? = some t ∧ (∃ p, t.phase = .running p) ∧ L.own t.id x := by
  obtain ⟨gs, hown, hinv⟩ := h.tokens
  refine ⟨gs.sum, hinv, ?_⟩
  intro x hx
  obtain ⟨n, t, g, ht, ⟨hmine, hphase⟩, hxg⟩ := exists_owner hown hx
  refine ⟨n, t, ht, ?_, hmine x hxg⟩
  cases hp : t.phase with
  | running p => exact ⟨p, rfl⟩
  | done a =>
    rw [hp] at hphase
    rw [show g = 0 from hphase] at hxg
    simp at hxg

end Logic

end Conc
