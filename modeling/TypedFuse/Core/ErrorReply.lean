import TypedFuse.Core.Excess
import TypedFuse.Core.Sample

/-!
# References of requests that fail

The lookups and the opens of a node change in few sections, and the filesystem cannot change them at
all.  `Granted` follows the lookups that a request which is served alone has added; a request that
fails has none left, except a `readdirplus` whose callback unwinds after an entry was accepted: the
branch of `Runtime::readdirplus` that forgets them is taken on a returned error only.
-/

namespace TypedFuse

open Conc Conc.Service NodeTable TypedFuse.Runtime

/-! ## Sinks -/

/-- The names `.` and `..`. -/
def Name.isDots (name : Name) : Prop :=
  name = Name.dot ∨ name = Name.dotDot

instance (name : Name) : Decidable name.isDots :=
  inferInstanceAs (Decidable (_ ∨ _))

/-- The entries that a sink accepted, among those offered to it after the entries `seen`. -/
def Sink.acceptedFrom {E : Type} (sink : Sink E) (seen : List E) : List E → List E
  | [] => []
  | e :: es =>
    if sink seen e then e :: acceptedFrom sink (seen ++ [e]) es
    else acceptedFrom sink (seen ++ [e]) es

/-- The entries that a sink accepted, among all that were offered to it. -/
def Sink.accepted {E : Type} (sink : Sink E) (offered : List E) : List E :=
  sink.acceptedFrom [] offered

lemma Sink.acceptedFrom_snoc {E : Type} (sink : Sink E) (seen offered : List E) (e : E) :
    sink.acceptedFrom seen (offered ++ [e]) =
      sink.acceptedFrom seen offered ++ if sink (seen ++ offered) e then [e] else [] := by
  induction offered generalizing seen with
  | nil =>
    simp only [List.nil_append, acceptedFrom, List.append_nil]
  | cons a offered ih =>
    simp only [List.cons_append, acceptedFrom, ih, List.append_assoc, List.nil_append]
    split
    · rfl
    · rfl

lemma Sink.accepted_snoc {E : Type} (sink : Sink E) (offered : List E) (e : E) :
    sink.accepted (offered ++ [e]) =
      sink.accepted offered ++ if sink offered e then [e] else [] := by
  have h := sink.acceptedFrom_snoc [] offered e
  rwa [List.nil_append] at h

/-- The accepted entries of `readdirplus` other than dots. -/
def acceptedPlus (sink : Sink PlusEntry) (offered : List PlusEntry) : List PlusEntry :=
  (sink.accepted offered).filter fun e => ¬ e.name.isDots

/-- The accepted entries after one more was offered. -/
lemma acceptedPlus_snoc (sink : Sink PlusEntry) (offered : List PlusEntry) (e : PlusEntry) :
    acceptedPlus sink (offered ++ [e]) =
      if sink offered e = true ∧ ¬ e.name.isDots then acceptedPlus sink offered ++ [e]
      else acceptedPlus sink offered := by
  unfold acceptedPlus
  rw [Sink.accepted_snoc, List.filter_append]
  cases sink offered e with
  | false => simp
  | true =>
    by_cases hdots : e.name.isDots
    · simp [hdots]
    · simp [hdots]

variable {fs : NodeFs} {n : ℕ} {α β : Type}

/-- What `Accounting::add` does with an entry: it is not offered to the reply, it is refused, it is
accepted as a dot, or it is accepted with a lookup. -/
inductive AddStep (sink : Sink PlusEntry) (acc : Accounting) (name : Name) (id : NodeId)
    (attr : NodeAttr) (nextOffset : ℕ) (s : RtState fs.toFsSig) :
    Bool × Accounting → RtState fs.toFsSig → Prop where
  | dead : AddStep sink acc name id attr nextOffset s (false, acc) s
  | refused (offered : List PlusEntry)
      (h : acceptedPlus sink offered = acceptedPlus sink acc.offered) :
      AddStep sink acc name id attr nextOffset s (false, ⟨offered, acc.accepted⟩) s
  | dots (hdots : name.isDots) (offered : List PlusEntry)
      (h : acceptedPlus sink offered = acceptedPlus sink acc.offered) :
      AddStep sink acc name id attr nextOffset s (true, ⟨offered, acc.accepted⟩) s
  | retained (hdots : ¬ name.isDots) (e : PlusEntry) (hname : e.name = name)
      (hino : e.entry.ino = id) (offered : List PlusEntry)
      (h : acceptedPlus sink offered = acceptedPlus sink acc.offered ++ [e]) {sl : Slot fs.Node}
      {s' : RtState fs.toFsSig} (hfs : s'.fs = s.fs) (hhandles : s'.handles = s.handles)
      (hinc : s.table.incr .lookups id = some (some sl, s'.table)) :
      AddStep sink acc name id attr nextOffset s (true, ⟨offered, acc.accepted ++ [id]⟩) s'

variable (fs) in
/-- The accounting sink of `readdirplus`. -/
lemma ensures_add (sink : Sink PlusEntry) (acc : Accounting) (name : Name) (id : NodeId)
    (attr : NodeAttr) (nextOffset : ℕ) (s : RtState fs.toFsSig) :
    (service fs).Ensures n s (Accounting.add sink acc name id attr nextOffset)
      (AddStep sink acc name id attr nextOffset s) := by
  refine ensures_plusEntry (fun _ => .dead) ?_
  intro sl hslot
  have hsnoc := acceptedPlus_snoc sink acc.offered
    ⟨name, ⟨id, sl.generation, attr⟩, nextOffset⟩
  dsimp only
  split
  · next hsink =>
    split
    · next hdots =>
      rw [if_pos ⟨hsink, not_or.mpr hdots⟩] at hsnoc
      refine ensures_retainLookup hslot ?_
      intro _ s₂ hfs hhandles hinc
      exact .retained (not_or.mpr hdots) _ rfl rfl _ hsnoc hfs hhandles hinc
    · next hdots =>
      rw [if_neg fun h => hdots (not_or.mp h.2)] at hsnoc
      exact .dots (by_contra fun h => hdots (not_or.mp h)) _ hsnoc
  · next hsink =>
    rw [if_neg fun h => hsink h.1] at hsnoc
    exact .refused _ hsnoc

/-- The retained lookups are those of the accepted entries. -/
def Runtime.Accounting.Exact (sink : Sink PlusEntry) (acc : Accounting) : Prop :=
  acc.accepted = (acceptedPlus sink acc.offered).map fun e => e.entry.ino

lemma AddStep.exact {sink : Sink PlusEntry} {acc : Accounting} {name : Name} {id : NodeId}
    {attr : NodeAttr} {nextOffset : ℕ} {s s' : RtState fs.toFsSig} {r : Bool × Accounting}
    (h : AddStep sink acc name id attr nextOffset s r s') (hacc : acc.Exact sink) :
    r.2.Exact sink := by
  unfold Runtime.Accounting.Exact at *
  cases h with
  | dead => exact hacc
  | refused _ h => rw [h, hacc]
  | dots _ _ h => rw [h, hacc]
  | retained _ e _ hino _ h => rw [h, hacc, List.map_append, List.map_singleton, hino]

/-! ## Lookups and opens -/

/-- The sections that change no lookup, no open and no registered handle. -/
def RtInstr.Neutral {σ : FsSig} : RtInstr σ → Prop
  | .grant _ | .retainLookup _ | .forget _ _ | .addOpen _ | .removeOpen _
  | .addHandle _ _ _ | .removeHandle _ _ _ => False
  | _ => True

/-- The references of the kernel: what it looked up, what it opened. -/
def Counter.Kernel (c : Counter) : Prop :=
  c = .lookups ∨ c = .opens

/-- The table is well formed, and the references of the kernel are the same. -/
structure Untouched {σ : FsSig} (s s' : RtState σ) : Prop where
  wf : s'.table.WF
  count : ∀ c : Counter, c.Kernel → ∀ i, s'.table.count c i = s.table.count c i
  handles : s'.handles.table = s.handles.table

lemma Untouched.of_table {σ : FsSig} {s s' : RtState σ} (hwf : s.table.WF)
    (ht : s'.table = s.table) (hh : s'.handles.table = s.handles.table) : Untouched s s' := by
  refine ⟨?_, ?_, hh⟩
  · rw [ht]
    exact hwf
  · intro c _ i
    rw [ht]

lemma Counter.Kernel.ne_links {c : Counter} (h : c.Kernel) : c ≠ .links := by
  rintro rfl
  rcases h with h | h <;> cases h

lemma Counter.Kernel.ne_leases {c : Counter} (h : c.Kernel) : c ≠ .leases := by
  rintro rfl
  rcases h with h | h <;> cases h

/-- Adding another reference. -/
lemma Untouched.of_incr {σ : FsSig} {s s' : RtState σ} (hwf : s.table.WF) {c : Counter}
    (hc : ∀ c' : Counter, c'.Kernel → c' ≠ c) {id : NodeId} {r : Option (Slot σ.Node)}
    (h : s.table.incr c id = some (r, s'.table)) (hh : s'.handles = s.handles) :
    Untouched s s' := by
  refine ⟨hwf.incr h, ?_, by rw [hh]⟩
  intro c' hc' i
  rw [count_incr h, if_neg fun hand => hc c' hc' hand.1, add_zero]

/-- Dropping another reference. -/
lemma Untouched.of_decr {σ : FsSig} {s s' : RtState σ} (hwf : s.table.WF) {c : Counter}
    (hc : ∀ c' : Counter, c'.Kernel → c' ≠ c) {id : NodeId} {m : ℕ}
    (h : s'.table = s.table.decr c m id) (hh : s'.handles = s.handles) : Untouched s s' := by
  refine ⟨?_, ?_, by rw [hh]⟩
  · rw [h]
    exact hwf.decr c m id
  · intro c' hc' i
    rw [h, count_decr, if_neg fun hand => hc c' hc' hand.1, Nat.sub_zero]

/-- Dropping a `NodeRef`. -/
lemma Untouched.of_dropRef {σ : FsSig} {s s' : RtState σ} (hwf : s.table.WF)
    {r : NodeRef σ.Node} (h : s'.table = s.table.dropRef r) (hh : s'.handles = s.handles) :
    Untouched s s' := by
  unfold NodeTable.dropRef at h
  split at h
  · split at h
    · exact of_decr hwf (fun _ => Counter.Kernel.ne_leases) h hh
    · rw [hwf.maybeDrop_eq] at h
      exact of_table hwf h (by rw [hh])
  · rw [hwf.maybeDrop_eq] at h
    exact of_table hwf h (by rw [hh])

/-- Taking a `NodeRef`. -/
lemma Untouched.of_get {σ : FsSig} {s s' : RtState σ} (hwf : s.table.WF) {id : NodeId}
    {r : Option (NodeRef σ.Node)} (h : s.table.get id = some (r, s'.table))
    (hh : s'.handles = s.handles) : Untouched s s' := by
  obtain ⟨⟨o, t₁⟩, hinc, heq⟩ := Option.map_eq_some_iff.mp h
  obtain ⟨_, rfl⟩ := Prod.mk.inj heq
  exact of_incr hwf (fun _ => Counter.Kernel.ne_leases) hinc hh

/-- Callbacks cannot change the references of the kernel. -/
lemma untouched_execFs {σ : FsSig} {s s' : RtState σ} (hwf : s.table.WF) {i : FsInstr σ}
    {ch : Option σ.Choice} {r : i.Resp} (he : s.execFs n i ch = some (r, s')) :
    Untouched s s' := by
  have hh := (handles_execFs he).1
  cases i with
  | get id =>
    obtain ⟨⟨o, t⟩, hget, heq⟩ := Option.map_eq_some_iff.mp he
    obtain ⟨_, rfl⟩ := Prod.mk.inj heq
    exact .of_get hwf hget hh
  | contains id =>
    obtain ⟨_, rfl⟩ := Prod.mk.inj (Option.some.inj he)
    exact .of_table hwf rfl rfl
  | insert payload parent =>
    obtain ⟨⟨id, t⟩, hins, heq⟩ := Option.map_eq_some_iff.mp he
    obtain ⟨_, rfl⟩ := Prod.mk.inj heq
    exact ⟨hwf.insert hins, fun c hc i => count_insert hwf hins hc.ne_links i, rfl⟩
  | reparent id newParent =>
    obtain ⟨_, rfl⟩ := Prod.mk.inj (Option.some.inj he)
    exact ⟨hwf.reparent id newParent, fun c _ i => count_reparent _ c id newParent i, rfl⟩
  | addLink id =>
    obtain ⟨t, hadd, heq⟩ := Option.map_eq_some_iff.mp he
    obtain ⟨_, rfl⟩ := Prod.mk.inj heq
    obtain ⟨⟨o, t₁⟩, hinc, rfl⟩ := Option.map_eq_some_iff.mp hadd
    exact .of_incr hwf (fun _ => Counter.Kernel.ne_links) hinc hh
  | removeLink id =>
    obtain ⟨_, rfl⟩ := Prod.mk.inj (Option.some.inj he)
    exact .of_decr hwf (fun _ => Counter.Kernel.ne_links) rfl hh
  | dropRef ref =>
    change (if ref.key ∈ s.hist.fsRefs then some ((), _) else none) = some (r, s') at he
    split at he
    · obtain ⟨_, rfl⟩ := Prod.mk.inj (Option.some.inj he)
      exact .of_dropRef hwf rfl hh
    · cases he
  | own i =>
    cases ch with
    | none => cases he
    | some ch =>
      obtain ⟨_, _, heq⟩ := Option.map_eq_some_iff.mp he
      obtain ⟨_, rfl⟩ := Prod.mk.inj heq
      exact .of_table hwf rfl rfl

/-- A neutral section leaves the references of the kernel alone. -/
lemma untouched_exec {s s' : RtState fs.toFsSig} (hwf : s.table.WF) {i : RtInstr fs.toFsSig}
    (hi : i.Neutral) {ch : Option fs.Choice} {r : i.Resp}
    (he : (service fs).exec n i ch s = some (r, s')) : Untouched s s' := by
  have hsame : Handles.SameTable s.handles s'.handles := by
    refine sameTable_exec ?_ ?_ he
    · rintro k node payload rfl
      exact hi
    · rintro k ino fh rfl
      exact hi
  cases i with
  | grant | retainLookup | forget | addOpen | removeOpen | addHandle | removeHandle =>
    exact absurd hi id
  | fs i => exact untouched_execFs hwf he
  | node id | lease id =>
    obtain ⟨⟨o, t⟩, hget, heq⟩ := Option.map_eq_some_iff.mp he
    obtain ⟨_, rfl⟩ := Prod.mk.inj heq
    exact .of_get hwf hget rfl
  | dropNode ref =>
    obtain ⟨_, rfl⟩ := Prod.mk.inj (Option.some.inj he)
    exact .of_dropRef hwf rfl rfl
  | denote | plusEntry | leak | parentOf | discard | findHandle | acquire | deref | dropLease
  | dropArc | close | drain | take =>
    exact .of_table hwf (inert_exec (by trivial) he).1 hsame.table

/-- Every step keeps the table well formed. -/
lemma wf_exec {s s' : RtState fs.toFsSig} (hwf : s.table.WF) {i : RtInstr fs.toFsSig}
    {ch : Option fs.Choice} {r : i.Resp} (he : (service fs).exec n i ch s = some (r, s')) :
    s'.table.WF := by
  cases i with
  | grant id | retainLookup id =>
    obtain ⟨⟨o, t⟩, hadd, heq⟩ := Option.map_eq_some_iff.mp he
    obtain ⟨_, rfl⟩ := Prod.mk.inj heq
    obtain ⟨⟨o', t₁⟩, hinc, heq'⟩ := Option.map_eq_some_iff.mp hadd
    obtain ⟨_, rfl⟩ := Prod.mk.inj heq'
    exact hwf.incr hinc
  | addOpen ino =>
    obtain ⟨⟨b, t⟩, hadd, heq⟩ := Option.map_eq_some_iff.mp he
    obtain ⟨_, rfl⟩ := Prod.mk.inj heq
    obtain ⟨⟨o', t₁⟩, hinc, heq'⟩ := Option.map_eq_some_iff.mp hadd
    obtain ⟨_, rfl⟩ := Prod.mk.inj heq'
    exact hwf.incr hinc
  | forget ino m =>
    obtain ⟨_, rfl⟩ := Prod.mk.inj (Option.some.inj he)
    exact hwf.decr _ m ino
  | removeOpen ino =>
    obtain ⟨_, rfl⟩ := Prod.mk.inj (Option.some.inj he)
    exact hwf.decr _ 1 ino
  | addHandle k node payload =>
    obtain ⟨_, _, heq⟩ := Option.map_eq_some_iff.mp he
    obtain ⟨_, rfl⟩ := Prod.mk.inj heq
    exact hwf
  | removeHandle k ino fh =>
    obtain ⟨_, rfl⟩ := Prod.mk.inj (Option.some.inj he)
    exact hwf
  | fs | node | lease | dropNode | denote | plusEntry | leak | parentOf | discard | findHandle
  | acquire | deref | dropLease | dropArc | close | drain | take =>
    exact (untouched_exec hwf (by trivial) he).wf

/-- An open is counted if the node is live. -/
lemma addOpen_cases {s s' : RtState fs.toFsSig} {ino : ℕ} {ch : Option fs.Choice} {live : Bool}
    (h : (service fs).exec n (.addOpen ino) ch s = some (live, s')) :
    (live = false ∧ s.table.slot ino = none ∧ s'.table = s.table ∧ s'.handles = s.handles) ∨
      ∃ sl, live = true ∧ s.table.slot ino = some sl ∧ s'.handles = s.handles ∧
        s.table.incr .opens ino = some (some sl, s'.table) := by
  obtain ⟨⟨b, t⟩, hadd, heq⟩ := Option.map_eq_some_iff.mp h
  obtain ⟨rfl, rfl⟩ := Prod.mk.inj heq
  obtain ⟨⟨o, t'⟩, hinc, heq'⟩ := Option.map_eq_some_iff.mp hadd
  obtain ⟨rfl, rfl⟩ := Prod.mk.inj heq'
  rcases incr_cases hinc with ⟨rfl, hslot, rfl⟩ | ⟨sl, rfl, hslot, _⟩
  · exact Or.inl ⟨rfl, hslot, rfl, rfl⟩
  · exact Or.inr ⟨sl, rfl, hslot, rfl, hinc⟩

/-- A request has added the lookups `A` to those of the state `s₀`. -/
structure Looked {σ : FsSig} (s₀ s : RtState σ) (A : List NodeId) : Prop where
  wf : s.table.WF
  lookups : ∀ i, s.table.count .lookups i = s₀.table.count .lookups i + A.count i

lemma Looked.untouched {σ : FsSig} {s₀ s s' : RtState σ} {A : List NodeId} (h : Looked s₀ s A)
    (hu : Untouched s s') : Looked s₀ s' A := by
  refine ⟨hu.wf, ?_⟩
  intro i
  rw [hu.count .lookups (Or.inl rfl), h.lookups]

/-- A request has added the lookups `A` to those of the state `s₀`, and nothing else of what the
kernel can refer to. -/
structure Granted {σ : FsSig} (s₀ s : RtState σ) (A : List NodeId) : Prop extends
    Looked s₀ s A where
  opens : ∀ i, s.table.count .opens i = s₀.table.count .opens i
  handles : s.handles.table = s₀.handles.table

namespace Granted

variable {s₀ s : RtState fs.toFsSig} {A : List NodeId}

lemma refl (hwf : s.table.WF) : Granted s s [] :=
  ⟨⟨hwf, fun _ => rfl⟩, fun _ => rfl, rfl⟩

lemma untouched {s' : RtState fs.toFsSig} (h : Granted s₀ s A) (hu : Untouched s s') :
    Granted s₀ s' A := by
  refine ⟨h.toLooked.untouched hu, ?_, hu.handles.trans h.handles⟩
  intro i
  rw [hu.count .opens (Or.inr rfl), h.opens]

lemma exec (h : Granted s₀ s A) {i : RtInstr fs.toFsSig} (hi : i.Neutral)
    {ch : Option fs.Choice} {r : i.Resp} {s' : RtState fs.toFsSig}
    (he : (service fs).exec n i ch s = some (r, s')) : Granted s₀ s' A :=
  h.untouched (untouched_exec h.wf hi he)

/-- A neutral section, then the rest. -/
lemma neutral (h : Granted s₀ s A) {i : RtInstr fs.toFsSig} (hi : i.Neutral)
    {f : i.Resp → RtProg fs.toFsSig α} {Q : α → RtState fs.toFsSig → Prop}
    (hf : ∀ r s', Granted s₀ s' A → (service fs).Ensures n s' (f r) Q) :
    (service fs).Ensures n s (Runtime.sect i >>= f) Q := by
  refine Ensures.step ?_
  intro ch r s' he
  exact hf r s' (h.exec hi he)

/-- A callback, then the rest. -/
lemma call (h : Granted s₀ s A) (p : FsProg fs.toFsSig β) {f : β → RtProg fs.toFsSig α}
    {Q : α → RtState fs.toFsSig → Prop}
    (hf : ∀ b s', Granted s₀ s' A → (service fs).Ensures n s' (f b) Q) :
    (service fs).Ensures n s (Runtime.call p >>= f) Q := by
  induction p generalizing s with
  | ret b => exact hf b s h
  | act i k ih => exact h.neutral (i := .fs i) (by trivial) fun r s' h' => ih r h'

/-- Adding a lookup. -/
lemma retain (h : Granted s₀ s A) {id : NodeId} {sl : Slot fs.Node} {s' : RtState fs.toFsSig}
    (hinc : s.table.incr .lookups id = some (some sl, s'.table)) (hh : s'.handles = s.handles) :
    Granted s₀ s' (A ++ [id]) := by
  refine ⟨⟨h.wf.incr hinc, ?_⟩, ?_, by rw [hh, h.handles]⟩
  · intro i
    rw [count_incr hinc, h.lookups, List.count_append]
    by_cases hi : i = id
    · simp [hi, Nat.add_assoc]
    · simp [hi, Ne.symm hi]
  · intro i
    rw [count_incr hinc, if_neg (by simp), add_zero, h.opens]

/-- Forgetting all of them. -/
lemma forgetAll (h : Granted s₀ s A) {f : Unit → RtProg fs.toFsSig α}
    {Q : α → RtState fs.toFsSig → Prop}
    (hf : ∀ s', Granted s₀ s' [] → (service fs).Ensures n s' (f ()) Q) :
    (service fs).Ensures n s (Runtime.forgetAll A >>= f) Q := by
  induction A generalizing s with
  | nil => exact hf s h
  | cons id A ih =>
    refine Ensures.step ?_
    intro ch _ s₁ he
    obtain ⟨_, rfl⟩ := Prod.mk.inj (Option.some.inj he)
    refine ih ⟨⟨h.wf.decr .lookups 1 id, ?_⟩, ?_, h.handles⟩
    · intro i
      change (s.table.decr .lookups 1 id).count .lookups i = _
      rw [count_decr, h.lookups, List.count_cons]
      by_cases hi : i = id
      · simp only [hi, true_and, if_true, beq_self_eq_true]
        omega
      · simp [hi, Ne.symm hi]
    · intro i
      change (s.table.decr .lookups 1 id).count .opens i = _
      rw [count_decr, if_neg (by simp), Nat.sub_zero, h.opens]

end Granted

/-! ## Scopes -/

/-- An outcome that neutral sections leave as it is. -/
def Settles (fs : NodeFs) (n : ℕ) (Q : Fallible α → RtState fs.toFsSig → Prop) : Prop :=
  ∀ (r : Fallible α) (i : RtInstr fs.toFsSig) (ch : Option fs.Choice) (x : i.Resp)
    (s s' : RtState fs.toFsSig), i.Neutral → (service fs).exec n i ch s = some (x, s') →
    Q r s → Q r s'

/-- `file(ino, fh)?` and `dir(ino, fh)?` found the handle and leased it. -/
inductive Reaches (fs : NodeFs) (n : ℕ) (k : HandleKind) (ino fh : ℕ) (s : RtState fs.toFsSig)
    (record : HandleArc) (payload : fs.Payload k) (s' : RtState fs.toFsSig) : Prop where
  | intro {s₁ s₂ : RtState fs.toFsSig} {ch₁ ch₂ ch₃ ch₄ : Option fs.Choice}
      (hfind : (service fs).exec n (.findHandle k fh) ch₁ s = some (some record, s₁))
      (hnode : record.node = ino)
      (hacquire : (service fs).exec n (.acquire k record) ch₂ s₁ = some (true, s₂))
      (harc : (service fs).exec n (.dropArc k record) ch₃ s₂ = some ((), s'))
      (hderef : (service fs).exec n (.deref k record) ch₄ s' = some (payload, s'))

namespace Granted

variable {s₀ s : RtState fs.toFsSig} {A : List NodeId}
  {Q : Fallible α → RtState fs.toFsSig → Prop}

/-- The scope of a node. -/
lemma withNode {ino : ℕ} {body : NodeRef fs.Node → RtProg fs.toFsSig (Fallible α)}
    (h : Granted s₀ s A) (hQ : Settles fs n Q)
    (hdead : ∀ s₁, Granted s₀ s₁ A → Q (fail .ENOENT) s₁)
    (hbody : ∀ node s₁ ch, (service fs).exec n (.node ino) ch s = some (some node, s₁) →
      Granted s₀ s₁ A → (service fs).Ensures n s₁ (body node) Q) :
    (service fs).Ensures n s (Runtime.withNode ino body) Q := by
  refine Ensures.step ?_
  intro ch node s₁ he
  have h₁ := h.exec (i := .node ino) (by trivial) he
  cases node with
  | none => exact hdead s₁ h₁
  | some node =>
    refine Ensures.bind (hbody node s₁ ch he h₁) ?_
    intro r s₂ hr
    refine Ensures.step ?_
    intro ch₂ _ s₃ he₂
    exact hQ r (.dropNode node) ch₂ _ s₂ s₃ (by trivial) he₂ hr

/-- The scope of a handle. -/
lemma withHandle {k : HandleKind} {ino fh : ℕ}
    {body : fs.Payload k → RtProg fs.toFsSig (Fallible α)} (h : Granted s₀ s A)
    (hQ : Settles fs n Q) (hbad : ∀ s₁, Granted s₀ s₁ A → Q (fail .EBADF) s₁)
    (hbody : ∀ record payload s₁, Reaches fs n k ino fh s record payload s₁ →
      Granted s₀ s₁ A → (service fs).Ensures n s₁ (body payload) Q) :
    (service fs).Ensures n s (Runtime.withHandle k ino fh body) Q := by
  have hrefused : ∀ (record : HandleArc) (s₁ : RtState fs.toFsSig), Granted s₀ s₁ A →
      (service fs).Ensures n s₁
        (do Runtime.sect (.dropArc k record); return (fail .EBADF : Fallible α)) Q := by
    intro record s₁ h₁
    exact h₁.neutral (by trivial) fun _ s₂ h₂ => hbad s₂ h₂
  refine Ensures.step ?_
  intro ch₁ record s₁ he₁
  have h₁ := h.exec (i := .findHandle k fh) (by trivial) he₁
  cases record with
  | none => exact hbad s₁ h₁
  | some record =>
    dsimp only
    split
    · next hnode =>
      refine Ensures.step ?_
      intro ch₂ granted s₂ he₂
      have h₂ := h₁.exec (i := .acquire k record) (by trivial) he₂
      cases granted with
      | false => exact hrefused record s₂ h₂
      | true =>
        refine Ensures.step fun ch₃ _ s₃ he₃ =>
          Ensures.step fun ch₄ payload s₄ he₄ => ?_
        have h₃ := h₂.exec (i := .dropArc k record) (by trivial) he₃
        -- reading the payload changes nothing
        obtain rfl : s₃ = s₄ := by
          obtain ⟨_, _, heq⟩ := Option.map_eq_some_iff.mp he₄
          exact (Prod.mk.inj heq).2
        refine Ensures.bind (hbody record payload s₃ ⟨he₁, hnode, he₂, he₃, he₄⟩ h₃)
          ?_
        intro r s₅ hr
        refine Ensures.step fun ch₅ _ s₆ he₅ => Ensures.step fun ch₆ _ s₇ he₆ => ?_
        have hr₆ := hQ r (.dropLease k record) ch₅ _ s₅ s₆ (by trivial) he₅ hr
        exact hQ r (.dropArc k record) ch₆ _ s₆ s₇ (by trivial) he₆ hr₆
    · exact hrefused record s₁ h₁

end Granted

/-! ## Requests that fail -/

/-- The lookups that a reply hands to the kernel, in order. -/
def Reply.given : Reply → List NodeId
  | .entry e => [e.reply.ino]
  | .created e _ _ => [e.reply.ino]
  | .retained ids _ => ids
  | _ => []

/-- A request that failed has added nothing, and one that succeeded the lookups `given`. -/
def Adds (s₀ : RtState fs.toFsSig) (given : α → List NodeId) (r : Fallible α)
    (s' : RtState fs.toFsSig) : Prop :=
  match r with
  | .ok a => Looked s₀ s' (given a)
  | .error _ => Granted s₀ s' []

namespace Adds

variable {s₀ s : RtState fs.toFsSig} {given : α → List NodeId}

lemma settles : Settles fs n (Adds s₀ given) := by
  intro r i ch x s s' hi he hr
  cases r with
  | ok a =>
    have hlooked : Looked s₀ s (given a) := hr
    exact hlooked.untouched (untouched_exec hlooked.wf hi he)
  | error e =>
    have hgranted : Granted s₀ s [] := hr
    exact hgranted.exec hi he

/-- Work on a successful outcome. -/
lemma onOk {r : Fallible β} {next : β → RtProg fs.toFsSig (Fallible α)} (h : Granted s₀ s [])
    (hnext : ∀ b, (service fs).Ensures n s (next b) (Adds s₀ given)) :
    (service fs).Ensures n s (Runtime.onOk r next) (Adds s₀ given) := by
  cases r with
  | error e => exact h
  | ok b => exact hnext b

/-- `Runtime::entry_for` adds a lookup only with its success. -/
lemma entryFor (h : Granted s₀ s []) (id : NodeId) (caller : Caller) :
    (service fs).Ensures n s (Runtime.entryFor fs id caller) fun r s' =>
      match r with
      | .ok e => e.reply.ino = id ∧ Granted s₀ s' [id]
      | .error _ => Granted s₀ s' [] := by
  refine h.neutral (by trivial) ?_
  intro denoted s₁ h₁
  refine h₁.neutral (by trivial) ?_
  intro node s₂ h₂
  cases node with
  | none => exact h₂
  | some node =>
    refine h₂.call _ ?_
    intro r s₃ h₃
    cases r with
    | error e => exact h₃.neutral (by trivial) fun _ s₄ h₄ => h₄
    | ok attr =>
      refine Ensures.step ?_
      intro ch g s₄ he
      rcases addLookup_cases he with ⟨rfl, _, rfl⟩ | ⟨sl, rfl, _, _, hh, hinc⟩
      · exact h₃.neutral (by trivial) fun _ s₅ h₅ => h₅
      · exact (h₃.retain hinc hh).neutral (by trivial) fun _ s₅ h₅ => ⟨rfl, h₅⟩

/-- `Runtime::lookup`. -/
lemma lookup (h : Granted s₀ s []) (parent : ℕ) (name : Name) (caller : Caller) :
    (service fs).Ensures n s (Runtime.lookup fs parent name caller)
      (Adds s₀ fun found => found.elim [] fun e => [e.reply.ino]) := by
  refine h.call _ ?_
  intro r s₁ h₁
  refine onOk h₁ ?_
  intro found
  cases found with
  | none => exact h₁.toLooked
  | some id =>
    refine Ensures.bind (entryFor h₁ id caller) ?_
    intro r s₂ hr
    cases r with
    | error e => exact hr
    | ok e =>
      obtain ⟨hino, hgranted⟩ := hr
      change Looked s₀ s₂ [e.reply.ino]
      rw [hino]
      exact hgranted.toLooked

/-- `mknod`, `mkdir`, `symlink` and `link`. -/
lemma makeOp (h : Granted s₀ s []) (op : MakeOp) (caller : Caller) :
    (service fs).Ensures n s (Runtime.makeOp fs op caller)
      (Adds s₀ fun e => [e.reply.ino]) := by
  refine h.call _ ?_
  intro r s₁ h₁
  refine onOk h₁ ?_
  intro id
  refine Ensures.mono (entryFor h₁ id caller) ?_
  intro r s₂ hr
  cases r with
  | error e => exact hr
  | ok e =>
    obtain ⟨hino, hgranted⟩ := hr
    change Looked s₀ s₂ [e.reply.ino]
    rw [hino]
    exact hgranted.toLooked

/-- Counting an open and registering the handle adds no lookup. -/
lemma addHandle {A : List NodeId} (h : Looked s₀ s A) {ino : NodeId} {sl : Slot fs.Node}
    {s' : RtState fs.toFsSig} (hinc : s.table.incr .opens ino = some (some sl, s'.table))
    {k : HandleKind} {payload : fs.Payload k} {ok : ℕ → α} (hok : ∀ fh, given (ok fh) = A) :
    (service fs).Ensures n s' (Runtime.sect (.addHandle k ino payload) >>= fun fh =>
      .ret (.ok (ok fh))) (Adds s₀ given) := by
  refine Ensures.step ?_
  intro ch fh s₁ he
  obtain ⟨r, _, heq⟩ := Option.map_eq_some_iff.mp he
  obtain ⟨_, rfl⟩ := Prod.mk.inj heq
  have hlooked : Looked s₀ s' A := by
    refine ⟨h.wf.incr hinc, ?_⟩
    intro i
    rw [count_incr hinc, if_neg (by simp), add_zero, h.lookups]
  rw [← hok fh] at hlooked
  exact ⟨hlooked.wf, hlooked.lookups⟩

/-- `Runtime::open` and `Runtime::opendir`: the open is counted last. -/
lemma openNode (h : Granted s₀ s []) (k : HandleKind) (ino : ℕ) (flags : ℤ)
    (caller : Caller) :
    (service fs).Ensures n s (Runtime.openNode fs k ino flags caller) (Adds s₀ fun _ => []) := by
  refine h.withNode settles (fun _ h => h) ?_
  intro node s₁ _ _ h₁
  refine h₁.call _ ?_
  intro r s₂ h₂
  refine onOk h₂ ?_
  intro opened
  refine Ensures.step ?_
  intro ch live s₃ he
  rcases addOpen_cases he with ⟨rfl, _, ht, hh⟩ | ⟨sl, rfl, _, _, hinc⟩
  · have h₃ : Granted s₀ s₃ [] := h₂.untouched (.of_table h₂.wf ht (by rw [hh]))
    exact h₃.neutral (by trivial) fun _ s₄ h₄ => h₄
  · exact addHandle h₂.toLooked hinc fun _ => rfl

/-- `Runtime::create`: the node of the entry is still live when the open is counted. -/
lemma create (h : Granted s₀ s []) (parent : ℕ) (name : Name) (mode umask : ℕ) (flags : ℤ)
    (caller : Caller) :
    (service fs).Ensures n s (Runtime.create fs parent name mode umask flags caller)
      (Adds s₀ fun c => [c.1.reply.ino]) := by
  refine h.call _ ?_
  intro r s₁ h₁
  refine onOk h₁ ?_
  rintro ⟨id, opened⟩
  refine Ensures.bind (entryFor h₁ id caller) ?_
  intro r s₂ hr
  cases r with
  | error e =>
    have h₂ : Granted s₀ s₂ [] := hr
    exact h₂.neutral (by trivial) fun _ s₃ h₃ => h₃
  | ok entry =>
    obtain ⟨hino, h₂⟩ := hr
    refine Ensures.step ?_
    intro ch live s₃ he
    rcases addOpen_cases he with ⟨rfl, hdead, _⟩ | ⟨sl, rfl, _, _, hinc⟩
    · have hcount := h₂.lookups id
      rw [count_of_dead hdead, List.count_singleton_self] at hcount
      omega
    · exact addHandle h₂.toLooked hinc fun _ => by rw [hino]

/-- `Runtime::readdir` takes no references. -/
lemma readdir (h : Granted s₀ s []) (ino fh offset : ℕ) (sink : Sink DirEntry)
    (caller : Caller) :
    (service fs).Ensures n s (Runtime.readdir fs ino fh offset sink caller)
      (Adds s₀ fun _ => []) := by
  refine h.withNode settles (fun _ h => h) ?_
  intro node s₁ _ _ h₁
  refine h₁.neutral (by trivial) ?_
  intro parent s₂ h₂
  cases parent with
  | none => exact h₂
  | some parent =>
    refine h₂.withHandle settles (fun _ h => h) ?_
    intro record handle s₃ _ h₃
    refine Ensures.bind (Ensures.handle (K := fun _ s => Granted s₀ s []) ?_ _ h₃) ?_
    · intro i offered s h
      cases i with
      | fs i => exact h.neutral (by trivial) fun _ s' h' => h'
      | add name id kind nextOffset => exact h
    · rintro ⟨r, offered⟩ s₄ h₄
      cases r with
      | error e => exact h₄
      | ok _ => exact h₄.toLooked

end Adds

/-- The sink that `Runtime::readdirplus` passes to its callback. -/
def accountingSink {σ : FsSig} (sink : Sink PlusEntry) (i : DirInstr σ NodeAttr)
    (acc : Accounting) : RtProg σ (i.Resp × Accounting) :=
  match i with
  | .fs i => Runtime.sect (.fs i) >>= fun r => return (r, acc)
  | .add name id attr nextOffset => Accounting.add sink acc name id attr nextOffset

/-- The callback of a `readdirplus` request that comes in the state `s` can end with `r`, after it
has pushed the entries of `acc`. -/
def Pushes (fs : NodeFs) (n : ℕ) (s : RtState fs.toFsSig) (ino fh offset : ℕ)
    (sink : Sink PlusEntry) (caller : Caller) (r : Fallible Unit) (acc : Accounting) : Prop :=
  ∃ node parent record payload s₁ s₂ s₃ ch,
    (service fs).exec n (.node ino) ch s = some (some node, s₁) ∧
    (s₁.table.slot ino).map Slot.parent = some parent ∧
    Reaches fs n .dir ino fh s₁ record payload s₂ ∧
    Alone (service fs) n
      ((fs.readdirplus node.record.payload ino parent payload offset caller).handle
        (accountingSink sink) {}) s₂ (r, acc) s₃

/-- The callback of a `readdirplus` request that comes in the state `s` can unwind after an entry,
other than dots, was accepted. -/
def PanicsLate (fs : NodeFs) (n : ℕ) (s : RtState fs.toFsSig) (ino fh offset : ℕ)
    (sink : Sink PlusEntry) (caller : Caller) : Prop :=
  ∃ acc, Pushes fs n s ino fh offset sink caller (.error .panic) acc ∧
    acceptedPlus sink acc.offered ≠ []

/-- A handler that does what the sink does is the sink. -/
lemma eq_accountingSink {σ : FsSig} {sink : Sink PlusEntry}
    {h : (i : DirInstr σ NodeAttr) → Accounting → RtProg σ (i.Resp × Accounting)}
    (hfs : ∀ i acc, h (.fs i) acc = accountingSink sink (.fs i) acc)
    (hadd : ∀ name id attr nextOffset acc, h (.add name id attr nextOffset) acc =
      accountingSink sink (.add name id attr nextOffset) acc) : h = accountingSink sink := by
  funext i acc
  cases i with
  | fs i => exact hfs i acc
  | add name id attr nextOffset => exact hadd name id attr nextOffset acc

/-- What `Runtime::readdirplus` does when its callback has ended. -/
def plusEnd {σ : FsSig} (acc : Accounting) :
    Fallible Unit → RtProg σ (Fallible (List NodeId × List PlusEntry))
  | .ok _ => return .ok (acc.accepted, acc.offered)
  | .error (.errno e) => do
    Runtime.forgetAll acc.accepted
    return fail e
  | .error .panic => do
    Runtime.sect (.leak acc.accepted)
    return .error .panic

lemma readdirplus_eq (ino fh offset : ℕ) (sink : Sink PlusEntry) (caller : Caller) :
    Runtime.readdirplus fs ino fh offset sink caller = (Runtime.withNode ino fun node => do
      match ← Runtime.sect (.parentOf ino) with
      | none => return fail .ENOENT
      | some parent => Runtime.withHandle .dir ino fh fun payload =>
        ((fs.readdirplus node.record.payload ino parent payload offset caller).handle
          (accountingSink sink) ({} : Accounting)) >>= fun r => plusEnd r.2 r.1) := by
  refine congrArg (Runtime.withNode ino) (funext fun node => bind_congr fun parent => ?_)
  cases parent with
  | none => rfl
  | some parent =>
    refine congrArg (Runtime.withHandle .dir ino fh) (funext fun payload => ?_)
    refine congrArg₂ (· >>= ·) (congrArg (fun h => Prog.handle h _ _) ?_) (funext ?_)
    · exact eq_accountingSink (fun _ _ => rfl) fun _ _ _ _ _ => rfl
    · rintro ⟨r, acc⟩
      match r with
      | .ok _ => rfl
      | .error (.errno e) => rfl
      | .error .panic => rfl

/-- The callback with its sink: the lookups that were added are those of the accepted entries. -/
lemma ensures_accounting {s₀ s : RtState fs.toFsSig} (sink : Sink PlusEntry)
    (hg : Granted s₀ s []) (p : DirProg fs.toFsSig NodeAttr α) :
    (service fs).Ensures n s (p.handle (accountingSink sink) {}) fun r s' =>
      (Granted s₀ s' r.2.accepted ∧ r.2.Exact sink ∧ s'.handles = s.handles) ∧
        Alone (service fs) n (p.handle (accountingSink sink) {}) s r s' := by
  let K : Accounting → RtState fs.toFsSig → Prop := fun acc s' =>
    Granted s₀ s' acc.accepted ∧ acc.Exact sink ∧ s'.handles = s.handles
  have hstart : K {} s := ⟨hg, rfl, rfl⟩
  refine (Ensures.handle (S := service fs) (K := K) ?_ p hstart).alone
  rintro i acc s' ⟨hg, hexact, hh⟩
  cases i with
  | fs i =>
    refine Ensures.step ?_
    intro ch r s₁ he
    exact ⟨hg.exec (i := .fs i) (by trivial) he, hexact, (handles_execFs he).1.trans hh⟩
  | add name id attr nextOffset =>
    refine Ensures.mono (ensures_add fs sink acc name id attr nextOffset s') ?_
    intro r s₁ hstep
    have hexact' := hstep.exact hexact
    cases hstep with
    | dead => exact ⟨hg, hexact', hh⟩
    | refused => exact ⟨hg, hexact', hh⟩
    | dots => exact ⟨hg, hexact', hh⟩
    | retained _ _ _ _ _ _ _ hhandles hinc =>
      exact ⟨hg.retain hinc hhandles, hexact', hhandles.trans hh⟩

/-- What a `readdirplus` that comes in the state `s` ends with: a success has retained the lookups
of the entries that were accepted, and a failure nothing, unless its callback can unwind late. -/
def PlusEnds (fs : NodeFs) (n : ℕ) (s : RtState fs.toFsSig) (ino fh offset : ℕ)
    (sink : Sink PlusEntry) (caller : Caller) (r : Fallible (List NodeId × List PlusEntry))
    (s' : RtState fs.toFsSig) : Prop :=
  match r with
  | .ok (ids, offered) => Looked s s' ids ∧ Accounting.Exact sink ⟨offered, ids⟩ ∧
    Pushes fs n s ino fh offset sink caller (.ok ()) ⟨offered, ids⟩
  | .error _ => Granted s s' [] ∨ PanicsLate fs n s ino fh offset sink caller

lemma ensures_readdirplus {s : RtState fs.toFsSig} (hwf : s.table.WF) (ino fh offset : ℕ)
    (sink : Sink PlusEntry) (caller : Caller) :
    (service fs).Ensures n s (Runtime.readdirplus fs ino fh offset sink caller)
      (PlusEnds fs n s ino fh offset sink caller) := by
  rw [readdirplus_eq]
  have hQ : Settles fs n (PlusEnds fs n s ino fh offset sink caller) := by
    intro r i ch x s₁ s₂ hi he hr
    cases r with
    | ok l =>
      obtain ⟨hlooked, hrest⟩ := hr
      exact ⟨hlooked.untouched (untouched_exec hlooked.wf hi he), hrest⟩
    | error e =>
      have hfails : Granted s s₁ [] ∨ PanicsLate fs n s ino fh offset sink caller := hr
      exact hfails.imp_left fun h => h.exec hi he
  refine (Granted.refl hwf).withNode hQ (fun s₁ h₁ => Or.inl h₁) ?_
  intro node s₁ ch he h₁
  refine Ensures.step ?_
  intro ch₂ parent s₂ he₂
  obtain ⟨hparent, rfl⟩ := Prod.mk.inj (Option.some.inj he₂)
  cases parent with
  | none => exact Or.inl h₁
  | some parent =>
    refine h₁.withHandle hQ (fun s₂ h₂ => Or.inl h₂) ?_
    intro record payload s₂ hreach h₂
    refine Ensures.bind (ensures_accounting sink h₂ _) ?_
    rintro ⟨r, acc⟩ s₃ ⟨⟨h₃, hexact, _⟩, hcallback⟩
    have hpushes : Pushes fs n s ino fh offset sink caller r acc :=
      ⟨node, parent, record, payload, s₁, s₂, s₃, ch, he, hparent, hreach, hcallback⟩
    match r with
    | .ok _ => exact ⟨h₃.toLooked, hexact, hpushes⟩
    | .error (.errno e) => exact h₃.forgetAll fun s₄ h₄ => Or.inl h₄
    | .error .panic =>
      refine h₃.neutral (by trivial) ?_
      intro _ s₄ h₄
      by_cases hnone : acceptedPlus sink acc.offered = []
      · rw [hexact, hnone] at h₄
        exact Or.inl h₄
      · exact Or.inr ⟨acc, hpushes, hnone⟩

/-- A record that exists can be let go of. -/
lemma exec_dropLease {s : RtState fs.toFsSig} {k : HandleKind} {record : HandleArc}
    (h : ((s.handles.cells k).lookup record.addr).isSome = true) :
    ∃ s₁ s₂, (service fs).exec n (.dropLease k record) none s = some ((), s₁) ∧
      (service fs).exec n (.dropArc k record) none s₁ = some ((), s₂) := by
  obtain ⟨cell, hcell⟩ := Option.isSome_iff_exists.mp h
  have hdrop : ∃ s₁, (service fs).exec n (.dropLease k record) none s = some ((), s₁) := by
    have hd : s.handles.dropLease k record.addr = some _ :=
      Option.map_eq_some_iff.mpr ⟨cell, hcell, rfl⟩
    exact ⟨_, Option.map_eq_some_iff.mpr ⟨_, hd, rfl⟩⟩
  obtain ⟨s₁, hs₁⟩ := hdrop
  have hsame := sameTable_exec (i := .dropLease k record) (fun _ _ _ h => nomatch h)
    (fun _ _ _ h => nomatch h) hs₁
  obtain ⟨cell₁, hcell₁⟩ :=
    Option.isSome_iff_exists.mp ((hsame.records k record.addr).trans h)
  have hd : s₁.handles.dropArc k record.addr = some _ :=
    Option.map_eq_some_iff.mpr ⟨cell₁, hcell₁, rfl⟩
  exact ⟨s₁, _, hs₁, Option.map_eq_some_iff.mpr ⟨_, hd, rfl⟩⟩

/-- The record of a leased handle exists. -/
lemma Reaches.record {k : HandleKind} {ino fh : ℕ} {s s' : RtState fs.toFsSig}
    {record : HandleArc} {payload : fs.Payload k}
    (h : Reaches fs n k ino fh s record payload s') :
    ((s'.handles.cells k).lookup record.addr).isSome = true := by
  obtain ⟨_, _, _, harc, _⟩ := h
  have hsame := sameTable_exec (i := .dropArc k record) (fun _ _ _ h => nomatch h)
    (fun _ _ _ h => nomatch h) harc
  rw [hsame.records]
  obtain ⟨hs, hd, _⟩ := Option.map_eq_some_iff.mp harc
  obtain ⟨cell, hcell, _⟩ := Option.map_eq_some_iff.mp hd
  rw [hcell]
  rfl

/-- Leasing a handle is neutral. -/
lemma Granted.reaches {s₀ s s' : RtState fs.toFsSig} {A : List NodeId} (h : Granted s₀ s A)
    {k : HandleKind} {ino fh : ℕ} {record : HandleArc} {payload : fs.Payload k}
    (hr : Reaches fs n k ino fh s record payload s') : Granted s₀ s' A := by
  obtain ⟨hfind, _, hacquire, harc, _⟩ := hr
  have h₁ := h.exec (i := .findHandle k fh) (by trivial) hfind
  have h₂ := h₁.exec (i := .acquire k record) (by trivial) hacquire
  exact h₂.exec (i := .dropArc k record) (by trivial) harc

/-- A run through the scope of a node. -/
lemma alone_withNode {ino : ℕ} {body : NodeRef fs.Node → RtProg fs.toFsSig (Fallible α)}
    {node : NodeRef fs.Node} {s s₁ s₂ s₃ : RtState fs.toFsSig} {r : Fallible α}
    {ch ch' : Option fs.Choice}
    (hnode : (service fs).exec n (.node ino) ch s = some (some node, s₁))
    (hbody : Alone (service fs) n (body node) s₁ r s₂)
    (hdrop : (service fs).exec n (.dropNode node) ch' s₂ = some ((), s₃)) :
    Alone (service fs) n (Runtime.withNode ino body) s r s₃ := by
  refine alone_perform hnode ?_
  have hret : Alone (service fs) n (.ret r) s₃ r s₃ := .ret _ _
  exact alone_bind.mpr ⟨r, s₂, hbody, alone_perform hdrop hret⟩

/-- A run through the scope of a handle. -/
lemma alone_withHandle {k : HandleKind} {ino fh : ℕ} {record : HandleArc} {payload : fs.Payload k}
    {body : fs.Payload k → RtProg fs.toFsSig (Fallible α)}
    {s s₁ s₂ s₃ s₄ : RtState fs.toFsSig} {r : Fallible α} {ch ch' : Option fs.Choice}
    (hreach : Reaches fs n k ino fh s record payload s₁)
    (hbody : Alone (service fs) n (body payload) s₁ r s₂)
    (hlease : (service fs).exec n (.dropLease k record) ch s₂ = some ((), s₃))
    (harc : (service fs).exec n (.dropArc k record) ch' s₃ = some ((), s₄)) :
    Alone (service fs) n (Runtime.withHandle k ino fh body) s r s₄ := by
  obtain ⟨hfind, hnode, hacquire, hdrop, hderef⟩ := hreach
  refine alone_perform hfind (alone_ite hnode (alone_perform hacquire ?_))
  refine alone_perform hdrop (alone_perform hderef ?_)
  have hret : Alone (service fs) n (.ret r) s₄ r s₄ := .ret _ _
  exact alone_bind.mpr ⟨r, s₂, hbody, alone_perform hlease (alone_perform harc hret)⟩

/-- The result of a `readdirplus` whose callback did not fail with an error number. -/
def plusResult (acc : Accounting) : Fallible Unit → Fallible (List NodeId × List PlusEntry)
  | .ok _ => .ok (acc.accepted, acc.offered)
  | .error e => .error e

/-- What a callback has pushed when it returns or unwinds, the request ends with. -/
lemma Pushes.alone {s : RtState fs.toFsSig} (hwf : s.table.WF) {ino fh offset : ℕ}
    {sink : Sink PlusEntry} {caller : Caller} {r : Fallible Unit} {acc : Accounting}
    (h : Pushes fs n s ino fh offset sink caller r acc) (hr : ∀ e, r ≠ .error (.errno e)) :
    acc.Exact sink ∧ ∃ s', Granted s s' acc.accepted ∧
      Alone (service fs) n (Runtime.readdirplus fs ino fh offset sink caller) s
        (plusResult acc r) s' := by
  obtain ⟨node, parent, record, payload, s₁, s₂, s₃, ch, he, hparent, hreach,
    hcallback⟩ := h
  have hrecord := hreach.record
  have h₁ := (Granted.refl hwf).exec (i := .node ino) (by trivial) he
  have h₂ := h₁.reaches hreach
  obtain ⟨⟨h₃, hexact, hhandles⟩, _⟩ :=
    alone_iff_wp.mp (ensures_accounting sink h₂ _) _ s₃ hcallback
  have hparent' : (service fs).exec n (.parentOf ino) none s₁ = some (some parent, s₁) :=
    congrArg (fun o => some (o, s₁)) hparent
  -- the rest of the request lets go of the handle and of the node
  have hrest : ∀ {out s₄}, Alone (service fs) n (plusEnd acc r) s₃ out s₄ →
      Granted s s₄ acc.accepted → s₄.handles = s₃.handles →
      ∃ s', Granted s s' acc.accepted ∧
        Alone (service fs) n (Runtime.readdirplus fs ino fh offset sink caller) s out s' := by
    intro out s₄ hend h₄ hhandles₄
    rw [← hhandles, ← hhandles₄] at hrecord
    obtain ⟨s₅, s₆, hs₅, hs₆⟩ := exec_dropLease (n := n) hrecord
    have hdrop : ∃ s₇, (service fs).exec n (.dropNode node) none s₆ = some ((), s₇) :=
      ⟨_, rfl⟩
    obtain ⟨s₇, hs₇⟩ := hdrop
    have h₇ := ((h₄.exec (i := .dropLease .dir record) (by trivial) hs₅).exec
      (i := .dropArc .dir record) (by trivial) hs₆).exec (i := .dropNode node) (by trivial) hs₇
    have hscope : Alone (service fs) n (Runtime.withHandle .dir ino fh fun payload =>
        ((fs.readdirplus node.record.payload ino parent payload offset caller).handle
          (accountingSink sink) ({} : Accounting)) >>= fun r => plusEnd r.2 r.1) s₁ out s₆ :=
      alone_withHandle hreach (alone_bind.mpr ⟨_, s₃, hcallback, hend⟩) hs₅ hs₆
    rw [readdirplus_eq]
    exact ⟨s₇, h₇, alone_withNode he (alone_perform hparent' hscope) hs₇⟩
  refine ⟨hexact, ?_⟩
  match r with
  | .ok _ => exact hrest (.ret _ _) h₃ rfl
  | .error (.errno e) => exact absurd rfl (hr e)
  | .error .panic =>
    obtain ⟨s₄, hs₄⟩ : ∃ s₄,
        (service fs).exec n (.leak acc.accepted) none s₃ = some ((), s₄) := ⟨_, rfl⟩
    have h₄ := h₃.exec (i := .leak acc.accepted) (by trivial) hs₄
    have hret : Alone (service fs) n (.ret (plusResult acc (.error .panic))) s₄
        (plusResult acc (.error .panic)) s₄ := .ret _ _
    refine hrest (alone_perform hs₄ hret) h₄ ?_
    obtain ⟨_, rfl⟩ := Prod.mk.inj (Option.some.inj hs₄)
    rfl

/-- A callback that can unwind late leaves lookups behind. -/
lemma PanicsLate.alone {s : RtState fs.toFsSig} (hwf : s.table.WF) {ino fh offset : ℕ}
    {sink : Sink PlusEntry} {caller : Caller}
    (h : PanicsLate fs n s ino fh offset sink caller) :
    ∃ s' A, Alone (service fs) n (Runtime.readdirplus fs ino fh offset sink caller) s
      (.error .panic) s' ∧ Granted s s' A ∧ A ≠ [] := by
  obtain ⟨acc, hpushes, hlate⟩ := h
  obtain ⟨hexact, s', hgranted, hrun⟩ := hpushes.alone hwf fun e heq => nomatch heq
  refine ⟨s', acc.accepted, hrun, hgranted, ?_⟩
  intro hnil
  rw [hexact] at hnil
  exact hlate (List.map_eq_nil_iff.mp hnil)

/-! ## Error replies -/

open Errno

/-- `catch_unwind` of the session: a request that unwound is answered with `EIO`. -/
def catchUnwind : Fallible α → Except Errno α
  | .ok a => .ok a
  | .error (.errno e) => .error e
  | .error .panic => .error EIO

/-- The lookups and the opens of every node and the registered handles are the same. -/
structure SameRefs (s s' : RtState fs.toFsSig) : Prop where
  lookups : ∀ i, s'.table.count .lookups i = s.table.count .lookups i
  opens : ∀ i, s'.table.count .opens i = s.table.count .opens i
  handles : s'.handles.table = s.handles.table

lemma Granted.sameRefs {s s' : RtState fs.toFsSig} (h : Granted s s' []) : SameRefs s s' :=
  ⟨h.lookups, h.opens, h.handles⟩

/-- A lookup that was added is a difference. -/
lemma Granted.not_sameRefs {s s' : RtState fs.toFsSig} {A : List NodeId} (h : Granted s s' A)
    (hA : A ≠ []) : ¬ SameRefs s s' := by
  intro hsame
  obtain ⟨id, A, rfl⟩ := List.exists_cons_of_ne_nil hA
  have hcount := h.lookups id
  rw [hsame.lookups, List.count_cons_self] at hcount
  omega

/-- The requests whose successful replies give the kernel references or entries. -/
def Request.Grants : Request → Prop
  | .lookup _ _ _ | .makeOp _ _ | .create _ _ _ _ _ _ | .openNode _ _ _ _ | .readdir _ _ _ _ _
  | .readdirplus _ _ _ _ _ => True
  | _ => False

/-- The request is a `readdirplus` whose callback can unwind after an entry, other than dots, was
accepted. -/
def LatePanic (c : Config (service fs)) : Request → Prop
  | .readdirplus ino fh offset sink caller =>
    PanicsLate fs c.threads.length c.state ino fh offset sink caller
  | _ => False

/-- The reply of a request is made from the outcome of its operation. -/
lemma Adds.reply {s₀ s : RtState fs.toFsSig} {p : RtProg fs.toFsSig (Fallible α)}
    {given : α → List NodeId} {reply : α → Reply} (hreply : ∀ a, (reply a).given = given a)
    (hp : (service fs).Ensures n s p (Adds s₀ given)) :
    (service fs).Ensures n s (p >>= fun r => .ret (r.map reply)) (Adds s₀ Reply.given) := by
  refine Ensures.bind hp ?_
  intro r s' hr
  cases r with
  | error e => exact hr
  | ok a =>
    have hlooked : Looked s₀ s' (given a) := hr
    rw [← hreply] at hlooked
    exact hlooked

/-- A request that cannot unwind late adds the lookups of its reply, and nothing if it fails. -/
lemma adds_serve {c : Config (service fs)} (hwf : c.state.table.WF) {req : Request}
    (hreq : req.Grants) (hlate : ¬ LatePanic c req) :
    (service fs).Ensures c.threads.length c.state (serve fs req)
      (Adds c.state Reply.given) := by
  have h := Granted.refl hwf
  cases req with
  | lookup parent name caller =>
    refine Adds.reply ?_ (Adds.lookup h parent name caller)
    intro found
    cases found with
    | none => rfl
    | some e => rfl
  | makeOp op caller => exact Adds.reply (fun _ => rfl) (Adds.makeOp h op caller)
  | create parent name mode umask flags caller =>
    exact Adds.reply (fun _ => rfl) (Adds.create h parent name mode umask flags caller)
  | openNode k ino flags caller =>
    exact Adds.reply (fun _ => rfl) (Adds.openNode h k ino flags caller)
  | readdir ino fh offset sink caller =>
    exact Adds.reply (fun _ => rfl) (Adds.readdir h ino fh offset sink caller)
  | readdirplus ino fh offset sink caller =>
    refine Adds.reply (fun _ => rfl) (Ensures.mono
      (ensures_readdirplus hwf ino fh offset sink caller) ?_)
    intro r s' hr
    cases r with
    | ok l => exact hr.1
    | error e => exact hr.resolve_right hlate
  | _ => exact absurd hreq id

/-- An error reply grants no references, in every reachable state and with any filesystem, if and
only if the request is not a `readdirplus` whose callback can unwind after an accepted entry. -/
theorem error_grants_nothing_iff {c : Config (service fs)} (hr : Run anyAction (start fs) c)
    {req : Request} (hreq : req.Grants) :
    (∀ a e c', Serves c req a c' → catchUnwind a = .error e → SameRefs c.state c'.state) ↔
      ¬ LatePanic c req := by
  obtain ⟨T, hinv⟩ := (holds_any hr).inv
  have hissue : Runtime.issue c.threads.length req c.state = c.state := by
    cases req with
    | forget => exact absurd hreq id
    | _ => rfl
  constructor
  · intro hclean hlate
    cases req with
    | readdirplus ino fh offset sink caller =>
      obtain ⟨s', A, hrun, hgranted, hA⟩ := PanicsLate.alone hinv.wf hlate
      have hret : Alone (service fs) c.threads.length
          (.ret (.error .panic : Fallible Reply)) s' (.error .panic) s' := .ret _ _
      have hserves : Serves c (.readdirplus ino fh offset sink caller) (.error .panic) _ :=
        ⟨c.state, s', rfl, alone_bind.mpr ⟨.error .panic, s', hrun, hret⟩, rfl⟩
      refine hgranted.not_sameRefs hA ?_
      have hsame := hclean _ EIO _ hserves rfl
      exact ⟨hsame.lookups, hsame.opens, hsame.handles⟩
    | _ => exact hlate
  · rintro hlate a e c' ⟨s, s', hs, hprog, rfl⟩ herr
    obtain rfl : c.state = s := hissue.symm.trans (Option.some.inj hs)
    have hadds := alone_iff_wp.mp (adds_serve hinv.wf hreq hlate) a s' hprog
    cases a with
    | ok a => cases herr
    | error f =>
      have hgranted : Granted c.state s' [] := hadds
      exact ⟨hgranted.sameRefs.lookups, hgranted.sameRefs.opens, hgranted.sameRefs.handles⟩

instance : DecidableEq (service fs).Ans :=
  inferInstanceAs (DecidableEq (Fallible Reply))

/-- A filesystem whose `readdirplus` pushes an entry for the directory itself and ends with `r`. -/
def Sample.pushes (r : Fallible Unit) : NodeFs :=
  { Sample.fs with
    readdirplus := fun _ this _ _ _ _ => .act (.add [97] this {} 1) fun _ => .ret r }

/-- The root is opened for listing. -/
def Sample.rootOpened (fs : NodeFs) : Config (service fs) :=
  (start fs).served none 20 (.openNode .dir NodeId.ROOT 0 {})

/-- Opening the root leads to a reachable configuration. -/
lemma Sample.run_rootOpened
    (h : Serves (start fs) (.openNode .dir NodeId.ROOT 0 {}) (.ok (.opened 1 {})) (rootOpened fs)) :
    Run anyAction (start fs) (rootOpened fs) :=
  h.run trivial (fun _ _ _ => trivial) fun _ _ => trivial

/-- A listing of the root into a sink that takes everything. -/
def Sample.listRoot : Request :=
  .readdirplus NodeId.ROOT 1 0 (fun _ _ => true) {}

/-- A callback that returns an error after it pushed an entry does not unwind. -/
lemma Sample.not_latePanic (c : Config (service (Sample.pushes (fail .EACCES)))) :
    ¬ LatePanic c Sample.listRoot := by
  rintro ⟨acc, ⟨_, _, _, _, _, _, _, _, _, _, _, hcallback⟩, _⟩
  obtain ⟨_, _, _, hret⟩ := alone_bind.mp hcallback
  cases hret

/-- A `readdirplus` that fails after an entry was accepted has retained its lookup and given it
back. -/
theorem error_grants_nothing_iff_refused :
    ∃ c c' : Config (service (Sample.pushes (fail .EACCES))),
    Run anyAction (start _) c ∧ Serves c Sample.listRoot (fail .EACCES) c' ∧
      NodeId.ROOT ∉ c.state.hist.granted ∧ NodeId.ROOT ∈ c'.state.hist.granted ∧
      SameRefs c.state c'.state := by
  have hrun : Run anyAction (start (Sample.pushes (fail .EACCES))) (Sample.rootOpened _) :=
    Sample.run_rootOpened (serves_served (by decide +kernel))
  have hlist : Serves (Sample.rootOpened (Sample.pushes (fail .EACCES))) Sample.listRoot
      (fail .EACCES) ((Sample.rootOpened _).served none 40 Sample.listRoot) :=
    serves_served (by decide +kernel)
  refine ⟨_, _, hrun, hlist, by decide +kernel, by decide +kernel, ?_⟩
  have hgrants : Request.Grants Sample.listRoot := trivial
  exact (error_grants_nothing_iff hrun hgrants).mpr (Sample.not_latePanic _) _ .EACCES _ hlist rfl

/-- A `readdirplus` whose callback unwinds after an accepted entry is answered with `EIO` and
leaves the lookup of the entry behind. -/
theorem error_grants_lookup : ∃ c c' : Config (service (Sample.pushes (.error .panic))),
    Run anyAction (start _) c ∧ Serves c Sample.listRoot (.error .panic) c' ∧
      catchUnwind (.error .panic : Fallible Reply) = .error EIO ∧
      c.state.table.count .lookups NodeId.ROOT = 0 ∧
      c'.state.table.count .lookups NodeId.ROOT = 1 ∧ ¬ SameRefs c.state c'.state := by
  have hrun : Run anyAction (start (Sample.pushes (.error .panic))) (Sample.rootOpened _) :=
    Sample.run_rootOpened (serves_served (by decide +kernel))
  have hlist : Serves (Sample.rootOpened (Sample.pushes (.error .panic))) Sample.listRoot
      (.error .panic) ((Sample.rootOpened _).served none 40 Sample.listRoot) :=
    serves_served (by decide +kernel)
  have hbefore : (Sample.rootOpened (Sample.pushes (.error .panic))).state.table.count .lookups
      NodeId.ROOT = 0 := by decide +kernel
  have hafter : ((Sample.rootOpened (Sample.pushes (.error .panic))).served none 40
      Sample.listRoot).state.table.count .lookups NodeId.ROOT = 1 := by decide +kernel
  refine ⟨_, _, hrun, hlist, rfl, hbefore, hafter, ?_⟩
  intro hsame
  have h := hsame.lookups NodeId.ROOT
  rw [hbefore, hafter] at h
  cases h

end TypedFuse
