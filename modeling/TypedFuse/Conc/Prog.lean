import Mathlib.Tactic

/-!
# Programs over atomic instructions

A concurrent program is written here as a tree: it either returns a value or performs one atomic
instruction and continues with the answer.  What an instruction does to the shared state is not
part of the tree, so the same program can be run alone or interleaved with others.

`Prog.embed` moves a program to a larger instruction set, `Prog.handle` interprets one by smaller
programs that pass a local state along, and `Prog.wp` is the weakest precondition of a program
over thread-local ghost state, given a predicate transformer for every instruction.
-/

namespace Conc

/-- A program over the instructions `I`, whose instruction `i` is answered by an `R i`. -/
inductive Prog (I : Type) (R : I → Type) (α : Type) : Type where
  /-- Return a value. -/
  | ret (a : α)
  /-- Perform one atomic instruction and continue with its answer. -/
  | act (i : I) (k : R i → Prog I R α)

namespace Prog

variable {I J : Type} {R : I → Type} {S : J → Type} {α β γ G σ : Type}

/-- Run `p`, then the program that `f` computes from its result. -/
def bind : Prog I R α → (α → Prog I R β) → Prog I R β
  | ret a, f => f a
  | act i k, f => act i fun r => (k r).bind f

instance : Monad (Prog I R) where
  pure := ret
  bind := bind

/-- The program that performs a single instruction. -/
def perform (i : I) : Prog I R (R i) :=
  act i ret

@[simp] lemma pure_eq (a : α) : (pure a : Prog I R α) = ret a := rfl

@[simp] lemma bind_ret (a : α) (f : α → Prog I R β) : (ret a >>= f) = f a := rfl

@[simp] lemma bind_act (i : I) (k : R i → Prog I R α) (f : α → Prog I R β) :
    (act i k >>= f) = act i fun r => k r >>= f := rfl

@[simp] lemma bind_perform (i : I) (f : R i → Prog I R α) : (perform i >>= f) = act i f := rfl

/-- Move a program to a larger instruction set: `e` renames the instructions and `back` reads the
answers. -/
def embed (e : I → J) (back : ∀ i, S (e i) → R i) : Prog I R α → Prog J S α
  | ret a => ret a
  | act i k => act (e i) fun r => (k (back i r)).embed e back

/-- Interpret every instruction by a program that also updates a local state. -/
def handle (h : (i : I) → σ → Prog J S (R i × σ)) :
    Prog I R α → σ → Prog J S (α × σ)
  | ret a, s => ret (a, s)
  | act i k, s => h i s >>= fun rs => (k rs.1).handle h rs.2

@[simp] lemma embed_ret (e : I → J) (back : ∀ i, S (e i) → R i) (a : α) :
    (ret a : Prog I R α).embed e back = ret a := rfl

@[simp] lemma embed_act (e : I → J) (back : ∀ i, S (e i) → R i) (i : I)
    (k : R i → Prog I R α) :
    (act i k).embed e back = act (e i) fun r => (k (back i r)).embed e back := rfl

/-- Embedding commutes with sequencing. -/
lemma embed_bind (e : I → J) (back : ∀ i, S (e i) → R i) (p : Prog I R α)
    (f : α → Prog I R β) :
    (p >>= f).embed e back = (p.embed e back >>= fun a => (f a).embed e back) := by
  induction p with
  | ret a => rfl
  | act i k ih =>
    simp only [bind_act, embed_act]
    congr 1
    funext r
    exact ih _

/-- Sequencing is associative. -/
lemma bind_bind (p : Prog I R α) (f : α → Prog I R β) (g : β → Prog I R γ) :
    (p >>= f >>= g) = (p >>= fun a => f a >>= g) := by
  induction p with
  | ret a => rfl
  | act i k ih =>
    simp only [bind_act]
    congr 1
    funext r
    exact ih r

/-- Interpreting a sequence interprets its parts one after the other. -/
lemma handle_bind (h : (i : I) → σ → Prog J S (R i × σ)) (p : Prog I R α)
    (f : α → Prog I R β) (s : σ) :
    (p >>= f).handle h s = (p.handle h s >>= fun r => (f r.1).handle h r.2) := by
  induction p generalizing s with
  | ret a => rfl
  | act i k ih =>
    simp only [bind_act, handle, bind_bind]
    congr 1
    funext r
    exact ih _ _

/-! ## Weakest preconditions -/

/-- The weakest precondition of a program over thread-local ghost state.  `spec i g K` says that
a thread with ghost state `g` may perform `i`, and that whatever the answer is, some ghost update
leads to a state from which `K` holds. -/
def wp (spec : (i : I) → G → (R i → G → Prop) → Prop) (Q : α → G → Prop) :
    Prog I R α → G → Prop
  | ret a, g => Q a g
  | act i k, g => spec i g fun r g' => (k r).wp spec Q g'

variable {spec : (i : I) → G → (R i → G → Prop) → Prop}

@[simp] lemma wp_ret {Q : α → G → Prop} {a : α} {g : G} :
    (ret a : Prog I R α).wp spec Q g ↔ Q a g := Iff.rfl

@[simp] lemma wp_act {Q : α → G → Prop} {i : I} {k : R i → Prog I R α} {g : G} :
    (act i k).wp spec Q g ↔ spec i g fun r g' => (k r).wp spec Q g' := Iff.rfl

/-- A predicate transformer is monotone if a weaker continuation keeps it true. -/
def MonoSpec (spec : (i : I) → G → (R i → G → Prop) → Prop) : Prop :=
  ∀ i g (K K' : R i → G → Prop), (∀ r g', K r g' → K' r g') → spec i g K → spec i g K'

/-- The weakest precondition of a sequence. -/
@[simp] lemma wp_bind {Q : β → G → Prop} {p : Prog I R α} {f : α → Prog I R β} {g : G} :
    (p >>= f).wp spec Q g ↔ p.wp spec (fun a g' => (f a).wp spec Q g') g := by
  induction p generalizing g with
  | ret a => exact Iff.rfl
  | act i k ih =>
    rw [bind_act, wp_act, wp_act]
    have hk : (fun r g' => (k r >>= f).wp spec Q g') =
        fun r g' => (k r).wp spec (fun a g'' => (f a).wp spec Q g'') g' := by
      funext r g'
      exact propext (ih r)
    rw [hk]

/-- A weaker postcondition has a weaker precondition. -/
lemma wp_mono (hmono : MonoSpec spec) {Q Q' : α → G → Prop} (hQ : ∀ a g, Q a g → Q' a g)
    {p : Prog I R α} {g : G} (h : p.wp spec Q g) : p.wp spec Q' g := by
  induction p generalizing g with
  | ret a => exact hQ a g h
  | act i k ih => exact hmono i g _ _ (fun r g' hr => ih r hr) h

/-- Both branches of a conditional. -/
lemma wp_ite {Q : α → G → Prop} {c : Prop} {_ : Decidable c} {p q : Prog I R α} {g : G}
    (hp : c → p.wp spec Q g) (hq : ¬c → q.wp spec Q g) : (if c then p else q).wp spec Q g := by
  split
  · next hc => exact hp hc
  · next hc => exact hq hc

/-- A program of instructions that are always allowed and leave the ghost state alone can be run
in any ghost state. -/
lemma wp_embed {specJ : (j : J) → G → (S j → G → Prop) → Prop} {e : I → J}
    {back : ∀ i, S (e i) → R i} {g : G}
    (hfree : ∀ i (K : S (e i) → G → Prop), (∀ r, K r g) → specJ (e i) g K)
    {Q : α → G → Prop} (hQ : ∀ a, Q a g) (p : Prog I R α) :
    (p.embed e back).wp specJ Q g := by
  induction p with
  | ret a => exact hQ a
  | act i k ih => exact hfree i _ fun r => ih _

/-- Every instruction that the program can perform satisfies `P`. -/
def Performs (P : I → Prop) : Prog I R α → Prop
  | ret _ => True
  | act i k => P i ∧ ∀ r, (k r).Performs P

lemma performs_ret {P : I → Prop} (a : α) : (ret a : Prog I R α).Performs P :=
  trivial

lemma performs_perform {P : I → Prop} {i : I} (hi : P i) :
    (perform i : Prog I R (R i)).Performs P :=
  ⟨hi, fun _ => trivial⟩

lemma Performs.bind {P : I → Prop} {p : Prog I R α} {f : α → Prog I R β} (hp : p.Performs P)
    (hf : ∀ a, (f a).Performs P) : (p >>= f).Performs P := by
  induction p with
  | ret a => exact hf a
  | act i k ih => exact ⟨hp.1, fun r => ih r (hp.2 r)⟩

lemma performs_embed {P : J → Prop} {e : I → J} {back : ∀ i, S (e i) → R i}
    (he : ∀ i, P (e i)) (p : Prog I R α) : (p.embed e back).Performs P := by
  induction p with
  | ret a => trivial
  | act i k ih => exact ⟨he i, fun r => ih _⟩

lemma performs_handle {P : J → Prop} {h : (i : I) → σ → Prog J S (R i × σ)}
    (hstep : ∀ i s, (h i s).Performs P) (p : Prog I R α) (s : σ) :
    (p.handle h s).Performs P := by
  induction p generalizing s with
  | ret a => trivial
  | act i k ih => exact (hstep i s).bind fun rs => ih rs.1 rs.2

/-- An embedded program performs the instructions that its own become. -/
lemma Performs.embed {P : I → Prop} {Q : J → Prop} {e : I → J} {back : ∀ i, S (e i) → R i}
    (he : ∀ i, P i → Q (e i)) {p : Prog I R α} (hp : p.Performs P) :
    (p.embed e back).Performs Q := by
  induction p with
  | ret a => trivial
  | act i k ih => exact ⟨he i hp.1, fun r => ih _ (hp.2 _)⟩

/-- An interpreted program performs what its instructions are interpreted by. -/
lemma Performs.handle {P : I → Prop} {Q : J → Prop}
    {h : (i : I) → σ → Prog J S (R i × σ)} (hstep : ∀ i s, P i → (h i s).Performs Q)
    {p : Prog I R α} (hp : p.Performs P) (s : σ) :
    (p.handle h s).Performs Q := by
  induction p generalizing s with
  | ret a => trivial
  | act i k ih => exact (hstep i s hp.1).bind fun rs => ih rs.1 (hp.2 rs.1) rs.2

/-- Both branches of a conditional. -/
lemma Performs.ite {P : I → Prop} {c : Prop} {_ : Decidable c} {p q : Prog I R α}
    (hp : p.Performs P) (hq : q.Performs P) : (if c then p else q).Performs P := by
  split
  · exact hp
  · exact hq

/-- Every value that the program can return satisfies `P`. -/
def Returns (P : α → Prop) : Prog I R α → Prop
  | ret a => P a
  | act _ k => ∀ r, (k r).Returns P

lemma returns_true (p : Prog I R α) : p.Returns fun _ => True := by
  induction p with
  | ret a => trivial
  | act i k ih => exact ih

/-- What the last of two programs returns. -/
lemma returns_bind {P : β → Prop} {p : Prog I R α} {f : α → Prog I R β}
    (hf : ∀ a, (f a).Returns P) : (p >>= f).Returns P := by
  induction p with
  | ret a => exact hf a
  | act i k ih => exact ih

/-- An assumption about all values that the program can return may be moved to each of them. -/
lemma returns_imp {h : Prop} {P : α → Prop} {p : Prog I R α} (hp : h → p.Returns P) :
    p.Returns fun a => h → P a := by
  induction p with
  | ret a => exact hp
  | act i k ih => exact fun r => ih r fun hh => hp hh r

/-- An interpreted program returns what it can return, with a local state. -/
lemma Returns.handle {P : α → Prop} {h : (i : I) → σ → Prog J S (R i × σ)}
    {p : Prog I R α} (hp : p.Returns P) (s : σ) : (p.handle h s).Returns fun r => P r.1 := by
  induction p generalizing s with
  | ret a => exact hp
  | act i k ih => exact returns_bind fun rs => ih rs.1 (hp rs.1) rs.2

/-- Every value that the program returns satisfies `P`, provided that all answers are `good`. -/
def ReturnsIf (good : (i : I) → R i → Prop) (P : α → Prop) : Prog I R α → Prop
  | ret a => P a
  | act i k => ∀ r, good i r → (k r).ReturnsIf good P

lemma returnsIf_true (good : (i : I) → R i → Prop) (p : Prog I R α) :
    p.ReturnsIf good fun _ => True := by
  induction p with
  | ret a => trivial
  | act i k ih => exact fun r _ => ih r

/-- What the last of two programs returns. -/
lemma ReturnsIf.bind {good : (i : I) → R i → Prop} {P : α → Prop} {Q : β → Prop}
    {p : Prog I R α} {f : α → Prog I R β} (hp : p.ReturnsIf good P)
    (hf : ∀ a, P a → (f a).ReturnsIf good Q) : (p >>= f).ReturnsIf good Q := by
  induction p with
  | ret a => exact hf a hp
  | act i k ih => exact fun r hr => ih r (hp r hr)

/-- One instruction and the rest. -/
lemma ReturnsIf.step {good : (i : I) → R i → Prop} {P : α → Prop} {i : I}
    {f : R i → Prog I R α} (hf : ∀ r, good i r → (f r).ReturnsIf good P) :
    (perform i >>= f).ReturnsIf good P :=
  hf

/-- Both branches of a conditional. -/
lemma ReturnsIf.ite {good : (i : I) → R i → Prop} {P : α → Prop} {c : Prop} {_ : Decidable c}
    {p q : Prog I R α} (hp : c → p.ReturnsIf good P) (hq : ¬c → q.ReturnsIf good P) :
    (if c then p else q).ReturnsIf good P := by
  split
  · next hc => exact hp hc
  · next hc => exact hq hc

/-- A property of the local state that the interpretation of every instruction keeps. -/
lemma returnsIf_handle {good : (j : J) → S j → Prop}
    {h : (i : I) → σ → Prog J S (R i × σ)} {K : σ → Prop}
    (hstep : ∀ i s, K s → (h i s).ReturnsIf good fun rs => K rs.2) (p : Prog I R α)
    {s : σ} (hs : K s) : (p.handle h s).ReturnsIf good fun rs => K rs.2 := by
  induction p generalizing s with
  | ret a => exact hs
  | act i k ih => exact (hstep i s hs).bind fun rs hrs => ih rs.1 hrs

/-- An interpreted program whose interpretation keeps the ghost state a function `g` of the local
state ends in such a ghost state, with a value that the program can return. -/
lemma wp_handle {specJ : (j : J) → G → (S j → G → Prop) → Prop} (hmono : MonoSpec specJ)
    {h : (i : I) → σ → Prog J S (R i × σ)} {g : σ → G}
    (hstep : ∀ i s, (h i s).wp specJ (fun rs g' => g' = g rs.2) (g s))
    {P : α → Prop} {Q : α × σ → G → Prop} (hQ : ∀ a s, P a → Q (a, s) (g s))
    {p : Prog I R α} (hp : p.Returns P) (s : σ) : (p.handle h s).wp specJ Q (g s) := by
  induction p generalizing s with
  | ret a => exact hQ a s hp
  | act i k ih =>
    refine wp_bind.mpr (wp_mono hmono ?_ (hstep i s))
    rintro ⟨r, s'⟩ g' rfl
    exact ih r (hp r) s'

/-- An interpreted program keeps an invariant of the local and the ghost state if every instruction
is interpreted by a program that does what the instruction promises and keeps the invariant. -/
lemma wp_handle_inv {specI : (i : I) → G → (R i → G → Prop) → Prop}
    {specJ : (j : J) → G → (S j → G → Prop) → Prop} (hmono : MonoSpec specJ)
    {h : (i : I) → σ → Prog J S (R i × σ)} {V : σ → Prop}
    (hstep : ∀ i s g (K : R i → G → Prop), V s → specI i g K →
      (h i s).wp specJ (fun rs g' => V rs.2 ∧ K rs.1 g') g)
    {Q : α → G → Prop} {p : Prog I R α} {g : G} (hp : p.wp specI Q g) {s : σ} (hs : V s) :
    (p.handle h s).wp specJ (fun rs g' => V rs.2 ∧ Q rs.1 g') g := by
  induction p generalizing g s with
  | ret a => exact ⟨hs, hp⟩
  | act i k ih =>
    refine wp_bind.mpr (wp_mono hmono ?_ (hstep i s g _ hs hp))
    rintro ⟨r, s'⟩ g' ⟨hs', hk⟩
    exact ih r hk hs'

end Prog

end Conc
