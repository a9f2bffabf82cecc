import TypedFuse.Conc.Sequential

/-!
# What holds at every step of a request that is served alone

`Guarantees` is the big-step judgement of `Ensures` with an assertion that every instruction of the
program finds in the state before it.  In a sequential run it holds of every instruction that a
request is about to perform (`sequential_guarantees`).
-/

namespace Conc

namespace Service

variable {S : Service} {α β : Type}

/-- The predicate transformer of an instruction of a thread that runs alone, before which an
assertion holds. -/
def assertSpec (S : Service) (chk : S.Instr → S.State → Prop) (n : ℕ) (i : S.Instr) (s : S.State)
    (K : S.Resp i → S.State → Prop) : Prop :=
  chk i s ∧ S.aloneSpec n i s K

/-- Whatever a program of thread `n` does alone from `s`, every instruction finds the assertion, and
it ends in `Q`. -/
def Guarantees (S : Service) (chk : S.Instr → S.State → Prop) (n : ℕ) (s : S.State)
    (p : Prog S.Instr S.Resp α) (Q : α → S.State → Prop) : Prop :=
  p.wp (S.assertSpec chk n) Q s

namespace Guarantees

variable {chk : S.Instr → S.State → Prop} {n : ℕ} {s : S.State}

lemma mono {p : Prog S.Instr S.Resp α} {Q Q' : α → S.State → Prop}
    (h : S.Guarantees chk n s p Q) (hQ : ∀ a s', Q a s' → Q' a s') :
    S.Guarantees chk n s p Q' := by
  refine Prog.wp_mono ?_ hQ h
  rintro i s K K' hK ⟨hchk, hspec⟩
  exact ⟨hchk, mono_aloneSpec n i s K K' hK hspec⟩

lemma bind {p : Prog S.Instr S.Resp α} {f : α → Prog S.Instr S.Resp β}
    {Q : α → S.State → Prop} {Q' : β → S.State → Prop} (h : S.Guarantees chk n s p Q)
    (hf : ∀ a s', Q a s' → S.Guarantees chk n s' (f a) Q') :
    S.Guarantees chk n s (p >>= f) Q' :=
  Prog.wp_bind.mpr (h.mono hf)

/-- A single instruction. -/
lemma perform {i : S.Instr} {Q : S.Resp i → S.State → Prop} (hchk : chk i s)
    (h : ∀ ch r s', S.exec n i ch s = some (r, s') → Q r s') :
    S.Guarantees chk n s (Prog.perform i) Q :=
  ⟨hchk, h⟩

/-- One instruction, then the rest. -/
lemma step {i : S.Instr} {f : S.Resp i → Prog S.Instr S.Resp β} {Q : β → S.State → Prop}
    (hchk : chk i s)
    (h : ∀ ch r s', S.exec n i ch s = some (r, s') → S.Guarantees chk n s' (f r) Q) :
    S.Guarantees chk n s (Prog.perform i >>= f) Q :=
  ⟨hchk, h⟩

end Guarantees

/-- Requests come one at a time, each in a state that is ready for it. -/
def oneAtATimeIf (pre : S.Req → S.State → Prop) (c : Config S) (a : Action S) : Prop :=
  oneAtATime c a ∧ ∀ req, a = .issue req → pre req c.state

/-- A thread has answered its request. -/
def Thread.isDone (t : Thread S) : Bool :=
  match t.phase with
  | .done _ => true
  | .running _ => false

lemma Thread.isDone_iff {t : Thread S} : t.isDone = true ↔ ∃ a, t.phase = .done a := by
  unfold isDone
  constructor
  · intro h
    split at h
    · next a ha => exact ⟨a, ha⟩
    · cases h
  · rintro ⟨a, ha⟩
    rw [ha]

instance (c : Config S) : Decidable c.Quiet :=
  decidable_of_iff (∀ t ∈ c.threads, t.isDone = true)
    (forall₂_congr fun _ _ => Thread.isDone_iff)

instance oneAtATimeIf.decidable {pre : S.Req → S.State → Prop}
    [∀ req s, Decidable (pre req s)] (c : Config S) : DecidablePred (oneAtATimeIf pre c)
  | .issue req => decidable_of_iff (c.Quiet ∧ pre req c.state)
      (and_congr_right fun _ => ⟨fun h _ heq => by cases heq; exact h, fun h => h req rfl⟩)
  | .step _ _ | .answer _ => .isTrue ⟨trivial, fun _ heq => nomatch heq⟩

/-- A property of the state that every request keeps when it is served alone holds whenever all
requests of a sequential run were answered, and an assertion that every instruction of such a
request finds holds at every step. -/
theorem sequential_guarantees {chk : S.Req → S.Instr → S.State → Prop} {I : S.State → Prop}
    {pre : S.Req → S.State → Prop} {c₀ c : Config S} (hq₀ : c₀.Quiet) (h₀ : I c₀.state)
    (hserve : ∀ n req s₀ s, I s₀ → pre req s₀ → S.issue n req s₀ = some s →
      S.Guarantees (chk req) n s (S.prog req) fun a s' => I (S.answer n req a s'))
    (hr : Run (oneAtATimeIf pre) c₀ c) :
    (c.Quiet → I c.state) ∧ ∀ n req i, c.At n req i → chk req i c.state := by
  have hupholds : c.Upholds
      (fun id req s p => S.Guarantees (chk req) id s p fun a s' => I (S.answer id req a s'))
      I := by
    refine upholds_of_run (fun c a h => h.1) ?_ ?_ (fun id req a s h => h) hq₀ h₀ hr
    · intro c req n s hpre hI hs
      exact hserve n req c.state s hI (hpre.2 req rfl) hs
    · intro c n ch id req i k r s _ _ hp he
      exact hp.2 ch r s he
  refine ⟨hupholds.quiet, ?_⟩
  rintro n req i ⟨id, k, ht⟩
  exact (hupholds.running ht).1

end Service

end Conc
