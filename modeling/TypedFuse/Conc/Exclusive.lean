import TypedFuse.Conc.Service

/-!
# Writers that exclude each other

Some requests of a service write to a part of the shared state that all other requests leave alone,
the *view*.  If a writer is issued only while no other writer is under way, then every writer finds
the view as its own last step left it, however the steps of other requests are interleaved with its
own.  So it is enough to follow a single writer through the view (`Exclusion.Acts`), and what the
answered writers did to an abstract state is what they do to it one after the other
(`Exclusion.Sound.refines`).
-/

namespace Conc

namespace Service

variable {S : Service} {W A : Type}

/-- Which requests write, what they write to, and when one of them may be issued. -/
structure Exclusion (S : Service) (W : Type) where
  /-- The request writes to the view. -/
  writes : S.Req → Bool
  /-- What writers write to. -/
  view : S.State → W
  /-- The environment may issue the writer while no other writer is under way. -/
  ready : S.Req → W → Prop

/-- Requests with their answers take an abstract state to another one, one after the other. -/
inductive Serial (step : S.Req → A → S.Ans → A → Prop) (a : A) :
    List (S.Req × S.Ans) → A → Prop where
  /-- No request. -/
  | nil : Serial step a [] a
  /-- One more request. -/
  | snoc {l : List (S.Req × S.Ans)} {a₁ a₂ : A} {req : S.Req} {ans : S.Ans} :
      Serial step a l a₁ → step req a₁ ans a₂ → Serial step a (l ++ [(req, ans)]) a₂

/-- A property that every request keeps is kept by all of them. -/
lemma Serial.invariant {step : S.Req → A → S.Ans → A → Prop} {I : A → Prop}
    (hstep : ∀ {req a ans a'}, step req a ans a' → I a → I a') {a a' : A}
    {l : List (S.Req × S.Ans)} (h : Serial step a l a') (ha : I a) : I a' := by
  induction h with
  | nil => exact ha
  | snoc _ hs ih => exact hstep hs ih

namespace Exclusion

variable (X : Exclusion S W)

/-- Thread `n` serves a writer that is not answered yet. -/
def Under (c : Config S) (n : ℕ) : Prop :=
  ∃ id req p, c.threads[n]? = some ⟨id, req, .running p⟩ ∧ X.writes req = true

/-- A writer is issued only while no other one is under way. -/
def Excludes (c : Config S) : Action S → Prop
  | .issue req => X.writes req = true → (∀ n, ¬ X.Under c n) ∧ X.ready req (X.view c.state)
  | _ => True

/-- A writer that was answered, with its answer. -/
def outcome (t : Thread S) : Option (S.Req × S.Ans) :=
  match t.phase with
  | .done a => if X.writes t.req then some (t.req, a) else none
  | .running _ => none

/-- The writers that were answered, in the order in which they were issued. -/
def answered (c : Config S) : List (S.Req × S.Ans) :=
  c.threads.filterMap X.outcome

/-- The predicate transformer of an instruction of a writer: between its steps the view stays, and
of the rest of the state only the `fact` about every state can be relied on. -/
def spec (fact : S.State → Prop) (n : ℕ) (i : S.Instr) (w : W) (K : S.Resp i → W → Prop) :
    Prop :=
  ∀ s ch r s', fact s → X.view s = w → S.exec n i ch s = some (r, s') → K r (X.view s')

/-- Whatever the program of a writer does from the view `w`, it ends in `Q`. -/
def Acts {α : Type} (fact : S.State → Prop) (n : ℕ) (w : W) (p : Prog S.Instr S.Resp α)
    (Q : α → W → Prop) : Prop :=
  p.wp (X.spec fact n) Q w

namespace Acts

variable {X} {fact : S.State → Prop} {n : ℕ} {w : W} {α β : Type}

lemma mono_spec : Prog.MonoSpec (X.spec fact n) := by
  intro i w K K' hK h s ch r s' hs hw he
  exact hK r _ (h s ch r s' hs hw he)

lemma ret {a : α} {Q : α → W → Prop} (h : Q a w) : X.Acts fact n w (.ret a) Q := h

lemma mono {p : Prog S.Instr S.Resp α} {Q Q' : α → W → Prop} (h : X.Acts fact n w p Q)
    (hQ : ∀ a w', Q a w' → Q' a w') : X.Acts fact n w p Q' :=
  Prog.wp_mono mono_spec hQ h

lemma bind {p : Prog S.Instr S.Resp α} {f : α → Prog S.Instr S.Resp β} {Q : α → W → Prop}
    {R : β → W → Prop} (h : X.Acts fact n w p Q)
    (hf : ∀ a w', Q a w' → X.Acts fact n w' (f a) R) : X.Acts fact n w (p >>= f) R :=
  Prog.wp_bind.mpr (h.mono hf)

/-- A single instruction. -/
lemma perform {i : S.Instr} {Q : S.Resp i → W → Prop}
    (h : ∀ s ch r s', fact s → X.view s = w → S.exec n i ch s = some (r, s') →
      Q r (X.view s')) :
    X.Acts fact n w (Prog.perform i) Q := h

end Acts

/-- What has to be shown of writers and of the other requests, for an abstract state `A` that `rep`
relates to the view and that a writer changes by `step`. -/
structure Sound (fact : S.State → Prop) (neutral : S.Instr → Prop) (rep : W → A → Prop)
    (step : S.Req → A → S.Ans → A → Prop) (c₀ : Config S) : Prop where
  /-- What is known of every state. -/
  facts : ∀ {c}, Run X.Excludes c₀ c → fact c.state
  /-- Issuing a request leaves the view alone. -/
  issue : ∀ {n req s s'}, S.issue n req s = some s' → X.view s' = X.view s
  /-- So does an answer. -/
  answer : ∀ n req a s, X.view (S.answer n req a s) = X.view s
  /-- So do the instructions of a request that does not write. -/
  keeps : ∀ {n i ch s r s'}, neutral i → fact s → S.exec n i ch s = some (r, s') →
    X.view s' = X.view s
  /-- A request that does not write takes no other instructions. -/
  reader : ∀ {req}, X.writes req = false → (S.prog req).Performs neutral
  /-- A writer does what it is meant to do. -/
  writer : ∀ {n req w a}, X.writes req = true → X.ready req w → rep w a →
    X.Acts fact n w (S.prog req) fun ans w' => ∃ a', step req a ans a' ∧ rep w' a'

/-- What holds along runs: no writer is under way and the view represents the abstract state, or
one is, it was issued last, and it will do what it is meant to do. -/
structure Follows (fact : S.State → Prop) (neutral : S.Instr → Prop) (rep : W → A → Prop)
    (step : S.Req → A → S.Ans → A → Prop) (c : Config S) (a : A) : Prop where
  readers : ∀ {n id : ℕ} {req : S.Req} {p : Prog S.Instr S.Resp S.Ans},
    c.threads[n]? = some ⟨id, req, .running p⟩ → X.writes req = false → p.Performs neutral
  writers : ((∀ n, ¬ X.Under c n) ∧ rep (X.view c.state) a) ∨
    ∃ n id req p, c.threads[n]? = some ⟨id, req, .running p⟩ ∧ X.writes req = true ∧
      (∀ m t, n < m → c.threads[m]? = some t → X.writes t.req = false) ∧
      (∀ m, X.Under c m → m = n) ∧
      X.Acts fact id (X.view c.state) p fun ans w' => ∃ a', step req a ans a' ∧ rep w' a'

/-- Replacing an entry that was skipped, and all of whose successors are, by one that is not. -/
lemma filterMap_set_last {B C : Type} {f : B → Option C} {l : List B} {n : ℕ} {t t' : B} {b : C}
    (hn : l[n]? = some t) (ht : f t = none)
    (hlater : ∀ m u, n < m → l[m]? = some u → f u = none)
    (ht' : f t' = some b) : (l.set n t').filterMap f = l.filterMap f ++ [b] := by
  induction l generalizing n with
  | nil => simp at hn
  | cons u l ih =>
    cases n with
    | zero =>
      obtain rfl : u = t := by simpa using hn
      have hnil : l.filterMap f = [] := by
        refine List.filterMap_eq_nil_iff.mpr ?_
        intro v hv
        obtain ⟨m, hm⟩ := List.getElem?_of_mem hv
        exact hlater (m + 1) v (Nat.succ_pos m) (by simpa using hm)
      simp [ht, ht', hnil]
    | succ n =>
      have htail := ih (n := n) (by simpa using hn)
        fun m v hm hv => hlater (m + 1) v (Nat.succ_lt_succ hm) (by simpa using hv)
      rw [List.set_cons_succ, List.filterMap_cons, List.filterMap_cons, htail]
      split <;> simp

/-- Replacing an entry that was skipped by one that is skipped. -/
lemma filterMap_set_none {B C : Type} {f : B → Option C} {l : List B} {n : ℕ} {t t' : B}
    (hn : l[n]? = some t) (ht : f t = none) (ht' : f t' = none) :
    (l.set n t').filterMap f = l.filterMap f := by
  induction l generalizing n with
  | nil => rfl
  | cons u l ih =>
    cases n with
    | zero =>
      obtain rfl : u = t := by simpa using hn
      simp [ht, ht']
    | succ n => rw [List.set_cons_succ, List.filterMap_cons, List.filterMap_cons,
        ih (n := n) (by simpa using hn)]

section Sound

variable {X} {fact : S.State → Prop} {neutral : S.Instr → Prop} {rep : W → A → Prop}
  {step : S.Req → A → S.Ans → A → Prop} {c₀ c c' : Config S} {a : A}

/-- A running writer is under way. -/
lemma under_of {n id : ℕ} {req : S.Req} {p : Prog S.Instr S.Resp S.Ans}
    (ht : c.threads[n]? = some ⟨id, req, .running p⟩) (hw : X.writes req = true) :
    X.Under c n :=
  ⟨id, req, p, ht, hw⟩

/-- After one thread has changed, the writers under way are the others and maybe this one. -/
lemma under_set {s : S.State} {n m : ℕ} {t v : Thread S} (ht : c.threads[n]? = some t)
    (hreq : v.req = t.req) (hrun : ∃ p, t.phase = .running p)
    (h : X.Under ⟨s, c.threads.set n v⟩ m) : X.Under c m := by
  obtain ⟨id, req, p, hm, hw⟩ := h
  rw [List.getElem?_set] at hm
  split at hm
  · next hnm =>
    split at hm
    · obtain rfl := Option.some.inj hm
      obtain ⟨q, hq⟩ := hrun
      obtain ⟨id', req', phase⟩ := t
      obtain rfl : req = req' := hreq
      obtain rfl : phase = .running q := hq
      exact ⟨id', req, q, hnm ▸ ht, hw⟩
    · cases hm
  · exact ⟨id, req, p, hm, hw⟩

/-- The other threads are as they were. -/
lemma readers_set {s : S.State} {n : ℕ} {v : Thread S}
    (h : ∀ {n id : ℕ} {req : S.Req} {p : Prog S.Instr S.Resp S.Ans},
      c.threads[n]? = some ⟨id, req, .running p⟩ → X.writes req = false →
      p.Performs neutral)
    (hnew : ∀ p, v.phase = .running p → X.writes v.req = false → p.Performs neutral)
    {m id : ℕ} {req : S.Req} {p : Prog S.Instr S.Resp S.Ans}
    (hm : (⟨s, c.threads.set n v⟩ : Config S).threads[m]? = some ⟨id, req, .running p⟩)
    (hw : X.writes req = false) : p.Performs neutral := by
  have hm' : (c.threads.set n v)[m]? = some ⟨id, req, .running p⟩ := hm
  rw [List.getElem?_set] at hm'
  split at hm'
  · split at hm'
    · obtain rfl := Option.some.inj hm'
      exact hnew p rfl hw
    · cases hm'
  · exact h hm' hw

/-- Later threads keep their requests. -/
lemma later_set {s : S.State} {n k : ℕ} {t v : Thread S} (ht : c.threads[k]? = some t)
    (hreq : v.req = t.req)
    (h : ∀ m u, n < m → c.threads[m]? = some u → X.writes u.req = false) (m : ℕ)
    (u : Thread S) (hm : n < m)
    (hu : (⟨s, c.threads.set k v⟩ : Config S).threads[m]? = some u) :
    X.writes u.req = false := by
  have hu' : (c.threads.set k v)[m]? = some u := hu
  rw [List.getElem?_set] at hu'
  split at hu'
  · next hkm =>
    split at hu'
    · obtain rfl := Option.some.inj hu'
      rw [hreq]
      exact h m t hm (hkm ▸ ht)
    · cases hu'
  · exact h m u hm hu'

/-- A step that leaves the view alone, of a thread that stays a reader or has been one. -/
lemma Follows.reader_step (h : X.Follows fact neutral rep step c a) {s : S.State} {n : ℕ}
    {t v : Thread S} (ht : c.threads[n]? = some t) (hrun : ∃ p, t.phase = .running p)
    (hreq : v.req = t.req) (hread : X.writes t.req = false)
    (hnew : ∀ p, v.phase = .running p → p.Performs neutral)
    (hview : X.view s = X.view c.state) :
    X.Follows fact neutral rep step ⟨s, c.threads.set n v⟩ a where
  readers := readers_set h.readers fun p hp _ => hnew p hp
  writers := by
    rcases h.writers with ⟨hnone, hrep⟩ | ⟨k, id, req, p, hk, hw, hlater, honly, hacts⟩
    · refine Or.inl ⟨fun m hm => hnone m (under_set ht hreq hrun hm), ?_⟩
      change rep (X.view s) a
      rw [hview]
      exact hrep
    · refine Or.inr ⟨k, id, req, p, ?_, hw, later_set ht hreq hlater,
        fun m hm => honly m (under_set ht hreq hrun hm), ?_⟩
      · have hne : n ≠ k := by
          rintro rfl
          obtain rfl := Option.some.inj (ht.symm.trans hk)
          rw [hw] at hread
          cases hread
        exact (List.getElem?_set_ne hne).trans hk
      · change X.Acts fact id (X.view s) p _
        rw [hview]
        exact hacts

/-- A reader that was answered is not among the answered writers. -/
lemma answered_reader {s : S.State} {n : ℕ} {t v : Thread S} (ht : c.threads[n]? = some t)
    (hreq : v.req = t.req) (hread : X.writes t.req = false) :
    X.answered ⟨s, c.threads.set n v⟩ = X.answered c := by
  refine filterMap_set_none ht ?_ ?_
  · unfold outcome
    split
    · rw [hread]
      rfl
    · rfl
  · unfold outcome
    split
    · rw [hreq, hread]
      rfl
    · rfl

/-- A request that was just issued is not answered. -/
lemma answered_issue {s : S.State} {n : ℕ} {req : S.Req} :
    X.answered ⟨s, c.threads ++ [Thread.start n req]⟩ = X.answered c := by
  change (c.threads ++ [Thread.start n req]).filterMap X.outcome = _
  rw [List.filterMap_append]
  change X.answered c ++ [] = _
  rw [List.append_nil]

/-- The thread at a place of a list with one more thread at its end. -/
lemma getElem?_start {ts : List (Thread S)} {u t : Thread S} {m : ℕ}
    (h : (ts ++ [u])[m]? = some t) : ts[m]? = some t ∨ (m = ts.length ∧ t = u) := by
  rw [List.getElem?_append] at h
  split at h
  · exact Or.inl h
  · next hlt =>
    rw [List.getElem?_singleton] at h
    split at h
    · exact Or.inr ⟨by omega, (Option.some.inj h).symm⟩
    · cases h

/-- Issuing a request. -/
lemma Follows.issue (hX : X.Sound fact neutral rep step c₀)
    (h : X.Follows fact neutral rep step c a)
    {s : S.State} {req : S.Req} (hs : S.issue c.threads.length req c.state = some s)
    (hallow : X.Excludes c (.issue req)) :
    X.Follows fact neutral rep step
      ⟨s, c.threads ++ [Thread.start c.threads.length req]⟩ a where
  readers := by
    intro n id req' p hn hread
    rcases getElem?_start hn with hn | ⟨_, heq⟩
    · exact h.readers hn hread
    · obtain ⟨rfl, rfl, hp⟩ := Thread.mk.inj heq
      obtain rfl := Phase.running.inj hp
      exact hX.reader hread
  writers := by
    have hview := hX.issue hs
    have hunder : ∀ {m : ℕ},
        X.Under ⟨s, c.threads ++ [Thread.start c.threads.length req]⟩ m →
        X.Under c m ∨ (m = c.threads.length ∧ X.writes req = true) := by
      rintro m ⟨id, req', p, hm, hw⟩
      rcases getElem?_start hm with hm | ⟨rfl, heq⟩
      · exact Or.inl ⟨id, req', p, hm, hw⟩
      · obtain ⟨_, rfl, _⟩ := Thread.mk.inj heq
        exact Or.inr ⟨rfl, hw⟩
    by_cases hw : X.writes req = true
    · obtain ⟨hnone, hready⟩ := hallow hw
      rcases h.writers with ⟨_, hrep⟩ | ⟨k, id, req', p, hk, hw', _⟩
      · refine Or.inr ⟨c.threads.length, c.threads.length, req, S.prog req,
          List.getElem?_concat_length, hw, ?_, ?_, ?_⟩
        · intro m t hm ht
          rcases getElem?_start ht with ht | ⟨rfl, _⟩
          · obtain ⟨hlt, _⟩ := List.getElem?_eq_some_iff.mp ht
            omega
          · omega
        · intro m hm
          rcases hunder hm with hm | ⟨rfl, _⟩
          · exact absurd hm (hnone m)
          · rfl
        · change X.Acts fact _ (X.view s) _ _
          rw [hview]
          exact hX.writer hw hready hrep
      · exact absurd (under_of hk hw') (hnone k)
    · rcases h.writers with ⟨hnone, hrep⟩ | ⟨k, id, req', p, hk, hw', hlater, honly, hacts⟩
      · refine Or.inl ⟨?_, ?_⟩
        · intro m hm
          rcases hunder hm with hm | ⟨_, hw'⟩
          · exact hnone m hm
          · exact hw hw'
        · change rep (X.view s) a
          rw [hview]
          exact hrep
      · refine Or.inr ⟨k, id, req', p, ?_, hw', ?_, ?_, ?_⟩
        · obtain ⟨hlt, _⟩ := List.getElem?_eq_some_iff.mp hk
          exact (List.getElem?_append_left hlt).trans hk
        · intro m t hm ht
          rcases getElem?_start ht with ht | ⟨_, rfl⟩
          · exact hlater m t hm ht
          · exact Bool.eq_false_of_not_eq_true hw
        · intro m hm
          rcases hunder hm with hm | ⟨_, hw''⟩
          · exact honly m hm
          · exact absurd hw'' hw
        · change X.Acts fact id (X.view s) p _
          rw [hview]
          exact hacts

/-- The view follows the abstract state along every run in which writers exclude each other. -/
theorem Sound.follows {a₀ : A} (hX : X.Sound fact neutral rep step c₀)
    (hnew : c₀.threads = []) (h₀ : rep (X.view c₀.state) a₀)
    (hr : Run X.Excludes c₀ c) :
    ∃ a, Serial step a₀ (X.answered c) a ∧ X.Follows fact neutral rep step c a := by
  refine Run.invariant (P := fun c => ∃ a, Serial step a₀ (X.answered c) a ∧
    X.Follows fact neutral rep step c a) ?_ ?_ hr
  · refine ⟨a₀, ?_, ?_, Or.inl ⟨?_, h₀⟩⟩
    · rw [answered, hnew]
      exact .nil
    · intro n id req p hn
      rw [hnew] at hn
      simp at hn
    · rintro n ⟨id, req, p, hn, _⟩
      rw [hnew] at hn
      simp at hn
  rintro c act c' hr hallow hn ⟨a, hserial, hc⟩
  cases act with
  | issue req =>
    obtain ⟨s, hs, rfl⟩ := next_issue hn
    refine ⟨a, ?_, hc.issue hX hs hallow⟩
    rw [answered_issue]
    exact hserial
  | step n ch =>
    obtain ⟨id, req, i, k, r, s, ht, he, rfl⟩ := next_step hn
    have hfact := hX.facts hr
    by_cases hw : X.writes req = true
    · rcases hc.writers with ⟨hnone, _⟩ | ⟨m, id', req', p, hm, hw', hlater, honly, hacts⟩
      · exact absurd (under_of ht hw) (hnone n)
      · obtain rfl := honly n (under_of ht hw)
        obtain ⟨rfl, rfl, hp⟩ := Thread.mk.inj (Option.some.inj (ht.symm.trans hm))
        obtain rfl := Phase.running.inj hp
        refine ⟨a, ?_, readers_set hc.readers fun q _ hread => ?_,
          Or.inr ⟨n, id, req, k r, ?_, hw,
          later_set ht rfl hlater, fun m hm => honly m ?_, ?_⟩⟩
        · have hsame : X.answered ⟨s, c.threads.set n ⟨id, req, .running (k r)⟩⟩ =
              X.answered c :=
            filterMap_set_none ht rfl rfl
          rw [hsame]
          exact hserial
        · rw [hw] at hread
          cases hread
        · obtain ⟨hlt, _⟩ := List.getElem?_eq_some_iff.mp ht
          exact List.getElem?_set_self hlt
        · exact under_set (v := ⟨id, req, .running (k r)⟩) ht rfl ⟨_, rfl⟩ hm
        · exact hacts c.state ch r s hfact rfl he
    · have hread := Bool.eq_false_of_not_eq_true hw
      have hperf := hc.readers ht hread
      refine ⟨a, ?_, hc.reader_step ht ⟨_, rfl⟩ rfl hread ?_ (hX.keeps hperf.1 hfact he)⟩
      · rw [answered_reader (v := ⟨id, req, .running (k r)⟩) ht rfl hread]
        exact hserial
      · intro p hp
        obtain rfl := Phase.running.inj hp
        exact hperf.2 r
  | answer n =>
    obtain ⟨id, req, ans, ht, rfl⟩ := next_answer hn
    have hview := hX.answer id req ans c.state
    by_cases hw : X.writes req = true
    · rcases hc.writers with ⟨hnone, _⟩ | ⟨m, id', req', p, hm, hw', hlater, honly, hacts⟩
      · exact absurd (under_of ht hw) (hnone n)
      · obtain rfl := honly n (under_of ht hw)
        obtain ⟨rfl, rfl, hp⟩ := Thread.mk.inj (Option.some.inj (ht.symm.trans hm))
        obtain rfl := Phase.running.inj hp
        obtain ⟨a', hstep, hrep⟩ := hacts
        refine ⟨a', ?_, readers_set hc.readers (fun q hq _ => by cases hq), Or.inl ⟨?_, ?_⟩⟩
        · have hlast : X.answered ⟨S.answer id req ans c.state,
              c.threads.set n ⟨id, req, .done ans⟩⟩ = X.answered c ++ [(req, ans)] := by
            refine filterMap_set_last ht rfl ?_ ?_
            · intro m u hm hu
              unfold outcome
              split
              · rw [hlater m u hm hu]
                rfl
              · rfl
            · exact if_pos hw
          rw [hlast]
          exact .snoc hserial hstep
        · intro m hm
          obtain rfl := honly m (under_set (v := ⟨id, req, .done ans⟩) ht rfl ⟨_, rfl⟩ hm)
          obtain ⟨id', req', p, hself, _⟩ := hm
          have hself' : (c.threads.set m ⟨id, req, .done ans⟩)[m]? =
            some ⟨id', req', .running p⟩ := hself
          obtain ⟨hlt, _⟩ := List.getElem?_eq_some_iff.mp ht
          rw [List.getElem?_set_self hlt] at hself'
          cases hself'
        · change rep (X.view (S.answer id req ans c.state)) a'
          rw [hview]
          exact hrep
    · have hread := Bool.eq_false_of_not_eq_true hw
      refine ⟨a, ?_, hc.reader_step ht ⟨_, rfl⟩ rfl hread ?_ hview⟩
      · rw [answered_reader (v := ⟨id, req, .done ans⟩) ht rfl hread]
        exact hserial
      · intro p hp
        cases hp

/-- The answered writers took the abstract state from one to the next, and while no writer is under
way the view represents the last one. -/
theorem Sound.refines {a₀ : A} (hX : X.Sound fact neutral rep step c₀)
    (hnew : c₀.threads = []) (h₀ : rep (X.view c₀.state) a₀)
    (hr : Run X.Excludes c₀ c) :
    ∃ a, Serial step a₀ (X.answered c) a ∧
      ((∀ n, ¬ X.Under c n) → rep (X.view c.state) a) := by
  obtain ⟨a, hserial, hc⟩ := hX.follows hnew h₀ hr
  refine ⟨a, hserial, fun hnone => ?_⟩
  rcases hc.writers with ⟨_, hrep⟩ | ⟨n, id, req, p, ht, hw, _⟩
  · exact hrep
  · exact absurd (under_of ht hw) (hnone n)

end Sound

end Exclusion

end Service

end Conc
