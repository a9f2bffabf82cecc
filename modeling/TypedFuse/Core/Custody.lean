import TypedFuse.Core.Routing

/-!
# Custody of handles

A handle that a callback returns belongs to the runtime, which registers it and later passes it to
`release`.  `open` and `opendir` do so in every case: the node they open is leased, so the open can
be counted.  `create` has three more steps that may fail between the callback and the registration,
and each of them drops the handle on its way out.
-/

namespace TypedFuse

open Conc Conc.Service NodeTable TypedFuse.Runtime

variable {fs : NodeFs} {n : ℕ}

/-- The callback of a request has returned a handle: the first events of the thread run the callback
up to this result. -/
inductive Produces (n : ℕ) :
    Request → List (Event (service fs)) → (k : HandleKind) → fs.Payload k → Prop where
  | openNode {k : HandleKind} {ino : ℕ} {flags : ℤ} {caller : Caller} {ref : NodeRef fs.Node}
      {opened : Opened (fs.Payload k)} {mid rest : List (Event (service fs))}
      (h : Plays (S := service fs) n (call (fs.openNode k ref.record.payload flags caller)) mid
        (.ret (.ok opened))) :
      Produces n (.openNode k ino flags caller) (⟨n, .node ino, some ref⟩ :: (mid ++ rest)) k
        opened.handle
  | create {parent : ℕ} {name : Name} {mode umask : ℕ} {flags : ℤ} {caller : Caller}
      {id : NodeId} {opened : Opened (fs.Payload .file)} {mid rest : List (Event (service fs))}
      (h : Plays (S := service fs) n (call (fs.create parent name mode umask flags caller)) mid
        (.ret (.ok (id, opened)))) :
      Produces n (.create parent name mode umask flags caller) (mid ++ rest) .file opened.handle

/-- The handle is registered under its number and was never moved out. -/
structure Registered (c : Config (service fs)) (es : List (Event (service fs))) (k : HandleKind)
    (ino fh : ℕ) (h : fs.Payload k) : Prop where
  table : (c.state.handles.table k).lookup fh = some ⟨fh, ino⟩
  payload : c.state.handles.deref k fh = some h
  kept : ∀ e ∈ es, ¬Takes k fh e

/-- The handle was moved out once, and passed to the callback of a `release` or `releasedir`. -/
structure GivenBack (c : Config (service fs)) (es : List (Event (service fs))) (k : HandleKind)
    (ino fh : ℕ) (h : fs.Payload k) : Prop where
  table : (c.state.handles.table k).lookup fh = none
  once : ∃ es₁ m arc es₂, es = es₁ ++ ⟨m, .take k arc, h⟩ :: es₂ ∧ arc.addr = fh ∧
    (∀ e ∈ es₁ ++ es₂, ¬Takes k fh e) ∧
    ∃ t caller, c.threads[m]? = some t ∧ t.req = .release k ino fh caller ∧
      ∃ (pre mid rest : List (Event (service fs))) (ref : NodeRef fs.Node)
        (result : Fallible Unit),
        eventsOf m es = pre ++ ⟨m, .take k arc, h⟩ :: (mid ++ rest) ∧
        Plays (S := service fs) m (call (fs.release k ref.record.payload h caller)) mid
          (.ret result)

/-- Every handle that a callback has returned got one number, which was returned to the caller, and
is registered under it or was given back. -/
def HandlesKept (c : Config (service fs)) (es : List (Event (service fs))) : Prop :=
  ∀ n t k h, c.threads[n]? = some t → Produces n t.req (eventsOf n es) k h →
    ∃ ino fh a, (eventsOf n es).filterMap issued = [fh] ∧
      ⟨n, .addHandle k ino h, fh⟩ ∈ es ∧
      t.phase = .done a ∧ Returned ino fh a ∧
      (Registered c es k ino fh h ∨ GivenBack c es k ino fh h)

/-- `create` does not fail after its callback has returned a handle. -/
def CreateKeeps (c : Config (service fs)) : Action (service fs) → Prop
  | .step n _ => ∀ parent name mode umask flags caller h,
      ¬c.At n (.create parent name mode umask flags caller) (.discard .file h)
  | _ => True

lemma NoIssue.filterMap {es : List (Event (service fs))} (h : NoIssue es) :
    es.filterMap issued = [] :=
  List.filterMap_eq_nil_iff.mpr h

/-- A program of plain instructions issues no handle. -/
lemma noIssue_of_plays {α : Type} {p q : RtProg fs.toFsSig α} {es : List (Event (service fs))}
    (h : Plays (S := service fs) n p es q) (hp : p.Performs RtInstr.Plain) : NoIssue es := by
  intro e he
  have hplain := h.performs hp e he
  obtain ⟨m, i, r⟩ := e
  exact noIssue_plain hplain r _ (List.mem_singleton_self _)

/-! ## Open -/

/-- What is left of `open` and `opendir` when the callback has returned and the open was counted. -/
def afterOpen (k : HandleKind) (ino : ℕ) (ref : NodeRef fs.Node) (opened : Opened (fs.Payload k))
    (live : Bool) : RtProg fs.toFsSig (Fallible Reply) :=
  if live then
    .act (.addHandle k ino opened.handle) fun fh =>
      .act (.dropNode ref) fun _ => .ret (.ok (.opened fh opened.hints))
  else .act (.discard k opened.handle) fun _ => .act (.dropNode ref) fun _ => .ret (fail .ENOENT)

/-- The node is leased and the rest of the function runs. -/
lemma plays_withNode {α : Type} {ino : ℕ} {ref : NodeRef fs.Node}
    {body : NodeRef fs.Node → RtProg fs.toFsSig (Fallible α)} {es : List (Event (service fs))}
    {q : RtProg fs.toFsSig (Fallible α)} (h : Plays (S := service fs) n (body ref) es q) :
    Plays (S := service fs) n (withNode ino body) (⟨n, .node ino, some ref⟩ :: es)
      (q >>= fun result => sect (.dropNode ref) >>= fun _ => .ret result) :=
  .act h.bind

lemma plays_opened {k : HandleKind} {ino : ℕ} {flags : ℤ} {caller : Caller}
    {ref : NodeRef fs.Node} {opened : Opened (fs.Payload k)} {mid : List (Event (service fs))}
    (h : Plays (S := service fs) n (call (fs.openNode k ref.record.payload flags caller)) mid
      (.ret (.ok opened))) :
    Plays (S := service fs) n (serve fs (.openNode k ino flags caller))
      (⟨n, .node ino, some ref⟩ :: mid) (.act (.addOpen ino) (afterOpen k ino ref opened)) := by
  refine Plays.congr (Plays.bind (plays_withNode (Plays.bind h))) ?_
  refine congrArg (Prog.act _) ?_
  funext live
  cases live <;> rfl

/-- An open of a leased node can be counted. -/
lemma openNode_live {c : Config (service fs)} (hr : Run anyAction (start fs) c) {m : ℕ}
    {k : HandleKind} {ino : ℕ} {flags : ℤ} {caller : Caller} {ref : NodeRef fs.Node}
    {opened : Opened (fs.Payload k)} {ch : Option fs.Choice} {s : RtState fs.toFsSig}
    (ht : c.threads[m]? = some ⟨n, .openNode k ino flags caller,
      .running (.act (.addOpen ino) (afterOpen k ino ref opened))⟩)
    {r : Bool} (he : (service fs).exec n (.addOpen ino) ch c.state = some (r, s)) : r = true := by
  obtain ⟨g, F, hmeets, hinv, _⟩ := (holds_any hr).thread ht
  obtain ⟨C, f, hC, rfl, hgive⟩ := hmeets
  rw [add_assoc] at hinv
  have hexec : c.state.exec n (.addOpen ino) ch = some (r, s) := he
  obtain ⟨g, hg, _⟩ := RtContract.exec hC hexec hinv False.elim
  cases hC with
  | addOpen ref' gen => exact hg.1
  | addOpenCreated _ =>
    rcases hg with ⟨hr, _⟩ | ⟨rfl, _, rfl⟩
    · exact hr
    -- the thread would be left with a lookup that nothing of the rest takes
    obtain ⟨C₁, f₁, hC₁, heq₁, hgive₁⟩ := hgive false _ (Or.inr ⟨rfl, id, rfl⟩)
    cases hC₁ with
    | discard =>
      obtain ⟨C₂, f₂, hC₂, heq₂, hgive₂⟩ := hgive₁ () 0 rfl
      cases hC₂ with
      | dropNode _ gen =>
        have hmem : Token.lookup n ino ∈ ({ref.token gen} : Multiset Token) + f₂ := by
          rw [← heq₂, zero_add, ← zero_add f₁, ← show _ = 0 + f₁ from heq₁]
          simp
        have hpost : Post Env.any n (.openNode k ino flags caller) (fail .ENOENT) (0 + f₂) :=
          hgive₂ () 0 rfl
        rw [zero_add] at hpost
        rcases hpost with ⟨rfl, _⟩ | ⟨rfl, _⟩
        · simp [delivered, NodeRef.token, fail] at hmem
        · simp [NodeRef.token] at hmem

/-- The instruction that a thread performs after a past is the one its program is left with. -/
lemma fired_past {allow : Config (service fs) → Action (service fs) → Prop}
    {c : Config (service fs)} {es : List (Event (service fs))}
    (htr : Traced allow (start fs) c es) {t : Thread (service fs)}
    (ht : c.threads[n]? = some t) {g₁ g₂ : List (Event (service fs))} {e : Event (service fs)}
    {p : RtProg fs.toFsSig (Fallible Reply)}
    (hplay : Plays (S := service fs) n (serve fs t.req) g₁ p)
    (hev : eventsOf n es = g₁ ++ e :: g₂) :
    ∃ (c₁ : Config (service fs)) (es₁ : List (Event (service fs))) (ch : Option fs.Choice)
        (s : RtState fs.toFsSig),
      Traced allow (start fs) c₁ es₁ ∧ eventsOf n es₁ = g₁ ∧ allow c₁ (.step n ch) ∧
      c₁.threads[n]? = some ⟨n, t.req, .running p⟩ ∧
      (service fs).exec n e.instr ch c₁.state = some (e.resp, s) ∧ c₁.At n t.req e.instr := by
  obtain ⟨es₁, es₂, hes, hpast, rfl⟩ := eventsOf_split hev
  obtain ⟨c₁, m, req, k, ch, s, htr₁, hallow, ht₁, he, ph, htc⟩ := htr.fired hes
  have hnum : c₁.Numbered := by
    refine htr₁.run.numbered ?_
    intro m t ht
    cases ht
  obtain rfl : e.thread = m := hnum m _ ht₁
  rw [ht] at htc
  obtain rfl := Option.some.inj htc
  have hplay₁ := htr₁.plays rfl ht₁
  rw [hpast, ← List.append_nil g₁] at hplay₁
  obtain rfl : .act e.instr k = p := (hplay.cancel hplay₁).of_nil
  exact ⟨c₁, es₁, ch, s, htr₁, hpast, hallow, ht₁, he, _, k, ht₁⟩

lemma fired_at {allow : Config (service fs) → Action (service fs) → Prop}
    {c : Config (service fs)} {es : List (Event (service fs))}
    (htr : Traced allow (start fs) c es) {t : Thread (service fs)}
    (ht : c.threads[n]? = some t) {g₁ g₂ : List (Event (service fs))} {e : Event (service fs)}
    {p : RtProg fs.toFsSig (Fallible Reply)}
    (hplay : Plays (S := service fs) n (serve fs t.req) g₁ p)
    (hev : eventsOf n es = g₁ ++ e :: g₂) :
    ∃ (c₁ : Config (service fs)) (ch : Option fs.Choice) (s : RtState fs.toFsSig),
      Run allow (start fs) c₁ ∧ allow c₁ (.step n ch) ∧
      c₁.threads[n]? = some ⟨n, t.req, .running p⟩ ∧
      (service fs).exec n e.instr ch c₁.state = some (e.resp, s) ∧ c₁.At n t.req e.instr := by
  obtain ⟨c₁, _, ch, s, htr₁, _, hrest⟩ := fired_past htr ht hplay hev
  exact ⟨c₁, ch, s, htr₁.run, hrest⟩

/-- `open` and `opendir` register the handle that the callback returned. -/
lemma registers_openNode {allow : Config (service fs) → Action (service fs) → Prop}
    {c : Config (service fs)} {es : List (Event (service fs))} (htr : Traced allow (start fs) c es)
    {k : HandleKind} {ino : ℕ} {flags : ℤ} {caller : Caller} {a : Fallible Reply} {id : ℕ}
    (ht : c.threads[n]? = some ⟨id, .openNode k ino flags caller, .done a⟩)
    {ref : NodeRef fs.Node} {opened : Opened (fs.Payload k)} {mid rest : List (Event (service fs))}
    (hplay : Plays (S := service fs) n (call (fs.openNode k ref.record.payload flags caller)) mid
      (.ret (.ok opened)))
    (hev : eventsOf n es = ⟨n, .node ino, some ref⟩ :: (mid ++ rest)) :
    ∃ fh, a = .ok (.opened fh opened.hints) ∧
      rest = [⟨n, .addOpen ino, true⟩, ⟨n, .addHandle k ino opened.handle, fh⟩,
        ⟨n, .dropNode ref, ()⟩] := by
  have hopened : Plays (S := service fs) n (serve fs (.openNode k ino flags caller)) _ _ :=
    plays_opened hplay
  have hwhole : Plays (S := service fs) n (serve fs (.openNode k ino flags caller)) (eventsOf n es)
      (.ret a) := htr.plays rfl ht
  rw [hev, ← List.cons_append] at hwhole
  obtain ⟨live, rest₁, rfl, hrest₁⟩ := (hopened.cancel hwhole).of_act
  rw [← List.cons_append] at hev
  obtain ⟨c₁, ch, s, hr₁, _, ht₁, he, _⟩ := fired_at htr ht hopened hev
  obtain rfl : live = true := openNode_live hr₁.any ht₁ he
  obtain ⟨fh, rest₂, rfl, hrest₂⟩ := hrest₁.of_act
  obtain ⟨_, rest₃, rfl, hrest₃⟩ := hrest₂.of_act
  obtain ⟨rfl, rfl⟩ := hrest₃.of_ret
  exact ⟨fh, rfl, rfl⟩

/-! ## Create -/

/-- What is left of `create` when `entry_for` has returned. -/
def afterEntry (id : NodeId) (opened : Opened (fs.Payload .file)) :
    Fallible Entry → RtProg fs.toFsSig (Fallible Reply)
  | .error e => .act (.discard .file opened.handle) fun _ => .ret (.error e)
  | .ok entry => .act (.addOpen id) fun live : Bool =>
    if live then
      .act (.addHandle .file id opened.handle) fun fh => .ret (.ok (.created entry fh opened.hints))
    else .act (.leak [id]) fun _ => .act (.discard .file opened.handle) fun _ => .ret (fail .ENOENT)

lemma plays_created {parent : ℕ} {name : Name} {mode umask : ℕ} {flags : ℤ} {caller : Caller}
    {id : NodeId} {opened : Opened (fs.Payload .file)} {mid : List (Event (service fs))}
    (h : Plays (S := service fs) n (call (fs.create parent name mode umask flags caller)) mid
      (.ret (.ok (id, opened)))) :
    Plays (S := service fs) n (serve fs (.create parent name mode umask flags caller)) mid
      (entryFor fs id caller >>= afterEntry id opened) := by
  refine Plays.congr (Plays.bind (Plays.bind h)) ?_
  refine (Prog.bind_bind (entryFor fs id caller) _ _).trans
    (congrArg (entryFor fs id caller >>= ·) ?_)
  funext entry
  cases entry with
  | error e => rfl
  | ok entry =>
    refine congrArg (Prog.act _) ?_
    funext live
    cases live <;> rfl

/-- `create` registers the handle that the callback returned, unless it drops it. -/
lemma registers_create {allow : Config (service fs) → Action (service fs) → Prop}
    {c : Config (service fs)} {es : List (Event (service fs))} (htr : Traced allow (start fs) c es)
    {parent : ℕ} {name : Name} {mode umask : ℕ} {flags : ℤ} {caller : Caller}
    {a : Fallible Reply} {i : ℕ}
    (ht : c.threads[n]? = some ⟨i, .create parent name mode umask flags caller, .done a⟩)
    (hkeeps : ∀ c a, allow c a → CreateKeeps c a)
    {id : NodeId} {opened : Opened (fs.Payload .file)} {mid rest : List (Event (service fs))}
    (hplay : Plays (S := service fs) n (call (fs.create parent name mode umask flags caller)) mid
      (.ret (.ok (id, opened))))
    (hev : eventsOf n es = mid ++ rest) :
    ∃ entry fh pre, a = .ok (.created entry fh opened.hints) ∧ entry.reply.ino = id ∧
      NoIssue pre ∧ rest = pre ++ [⟨n, .addHandle .file id opened.handle, fh⟩] := by
  have hcreated := plays_created hplay
  have hwhole : Plays (S := service fs) n (serve fs (.create parent name mode umask flags caller))
      (eventsOf n es) (.ret a) := htr.plays rfl ht
  rw [hev] at hwhole
  obtain ⟨es₁, es₂, entry, rfl, hentry, hafter⟩ := (hcreated.cancel hwhole).of_bind
  -- no discard is among the events of the thread
  have hdiscard : ∀ (g₁ g₂ : List (Event (service fs))) (r : Unit)
      {k : _ → RtProg fs.toFsSig (Fallible Reply)},
      Plays (S := service fs) n (serve fs (.create parent name mode umask flags caller)) g₁
        (.act (.discard .file opened.handle) k) →
      eventsOf n es ≠ g₁ ++ ⟨n, .discard .file opened.handle, r⟩ :: g₂ := by
    intro g₁ g₂ r k hplay' hev'
    obtain ⟨c₁, ch, s, _, hallow, _, _, hat⟩ := fired_at htr ht hplay' hev'
    exact hkeeps _ _ hallow parent name mode umask flags caller opened.handle hat
  have hplay₁ := hcreated.trans (hentry.bind (f := afterEntry id opened))
  have hno₁ : NoIssue es₁ := noIssue_of_plays hentry (performs_entryFor id caller)
  cases entry with
  | error e =>
    obtain ⟨u, es₃, rfl, _⟩ := hafter.of_act
    refine absurd ?_ (hdiscard (mid ++ es₁) es₃ u hplay₁)
    rw [hev, List.append_assoc]
  | ok entry =>
    obtain ⟨live, es₃, rfl, hafter₁⟩ := hafter.of_act
    have hplay₂ := hplay₁.trans (.act (r := live) (.refl _))
    cases live with
    | false =>
      obtain ⟨u, es₄, rfl, hafter₂⟩ := hafter₁.of_act
      obtain ⟨v, es₅, rfl, _⟩ := hafter₂.of_act
      refine absurd ?_ (hdiscard _ es₅ v (hplay₂.trans (.act (r := u) (.refl _))))
      rw [hev]
      simp
    | true =>
      obtain ⟨fh, es₄, rfl, hafter₂⟩ := hafter₁.of_act
      obtain ⟨rfl, rfl⟩ := hafter₂.of_ret
      refine ⟨entry, fh, es₁ ++ [⟨n, .addOpen id, true⟩], rfl, ?_, ?_, by simp⟩
      · exact hentry.returns (returns_entryFor id caller) entry rfl
      · exact hno₁.append (noIssue_plain (by trivial) _)

/-! ## Release -/

lemma not_takes_of_plain {k : HandleKind} {a : ℕ} {e : Event (service fs)}
    (h : RtInstr.Plain e.instr) : ¬Takes k a e := by
  rintro ⟨m, arc, payload, _, rfl⟩
  exact h

/-- The node was not live, or it was leased and the rest of the function has run. -/
lemma of_withNode {α : Type} {ino : ℕ}
    {body : NodeRef fs.Node → RtProg fs.toFsSig (Fallible α)}
    {es : List (Event (service fs))} {r : Fallible α}
    (h : Plays (S := service fs) n (withNode ino body) es (.ret r)) :
    es = [⟨n, .node ino, none⟩] ∨ ∃ ref es',
      es = ⟨n, .node ino, some ref⟩ :: (es' ++ [⟨n, .dropNode ref, ()⟩]) ∧
        Plays (S := service fs) n (body ref) es' (.ret r) := by
  obtain ⟨leased, es₁, rfl, h₁⟩ := h.of_act
  cases leased with
  | none =>
    obtain ⟨rfl, _⟩ := h₁.of_ret
    exact Or.inl rfl
  | some ref =>
    have hbody : Plays (S := service fs) n
        (body ref >>= fun result => sect (.dropNode ref) >>= fun _ => .ret result) es₁
        (.ret r) := h₁
    obtain ⟨es', es₂, r', rfl, hrun, hdrop⟩ := hbody.of_bind
    obtain ⟨_, es₃, rfl, h₃⟩ := hdrop.of_act
    obtain ⟨rfl, rfl⟩ := h₃.of_ret
    exact Or.inr ⟨ref, es', rfl, hrun⟩

/-- `close_and_take` moves the payload out last. -/
lemma of_closeAndTake {k : HandleKind} {arc : HandleArc} {es : List (Event (service fs))}
    {payload : fs.Payload k}
    (h : Plays (S := service fs) n (closeAndTake k arc) es (.ret payload)) :
    ∃ pre, es = pre ++ [⟨n, .take k arc, payload⟩] ∧
      ∀ e ∈ pre, RtInstr.Plain e.instr := by
  obtain ⟨drained, es₁, rfl, h₁⟩ := h.of_act
  cases drained with
  | true =>
    obtain ⟨payload', es₂, rfl, h₂⟩ := h₁.of_act
    obtain ⟨rfl, rfl⟩ := h₂.of_ret
    exact ⟨[⟨n, .close k arc, true⟩], rfl, by simp [RtInstr.Plain]⟩
  | false =>
    obtain ⟨u, es₂, rfl, h₂⟩ := h₁.of_act
    obtain ⟨payload', es₃, rfl, h₃⟩ := h₂.of_act
    obtain ⟨rfl, rfl⟩ := h₃.of_ret
    exact ⟨[⟨n, .close k arc, false⟩, ⟨n, .drain k arc, u⟩],
      rfl, by simp [RtInstr.Plain]⟩

/-- A `release` that has moved the payload out has passed it to the callback. -/
lemma plays_release {k : HandleKind} {ino fh : ℕ} {caller : Caller} {a : Fallible Reply}
    {es : List (Event (service fs))}
    (h : Plays (S := service fs) n (serve fs (.release k ino fh caller)) es (.ret a)) :
    (∀ e ∈ es, RtInstr.Plain e.instr) ∨
      ∃ (arc : HandleArc) (payload : fs.Payload k) (pre mid rest : List (Event (service fs)))
          (ref : NodeRef fs.Node) (result : Fallible Unit),
        es = pre ++ ⟨n, .take k arc, payload⟩ :: (mid ++ rest) ∧
        (∀ e ∈ pre ++ (mid ++ rest), RtInstr.Plain e.instr) ∧
        Plays (S := service fs) n (call (fs.release k ref.record.payload payload caller)) mid
          (.ret result) := by
  obtain ⟨es₀, es₁, r, rfl, hrel, hret⟩ := h.of_bind
  obtain ⟨rfl, _⟩ := hret.of_ret
  rw [List.append_nil]
  obtain ⟨found, es₂, rfl, h₂⟩ := hrel.of_act
  cases found with
  | none =>
    obtain ⟨rfl, _⟩ := h₂.of_ret
    exact Or.inl (by simp [RtInstr.Plain])
  | some arc =>
    have hbody : Plays (S := service fs) n
        ((withNode ino fun node => sect (.removeOpen ino) >>= fun _ => closeAndTake k arc >>=
          fun handle => call (fs.release k node.record.payload handle caller)) >>=
            fun result => sect (.dropArc k arc) >>= fun _ => .ret result) es₂ (.ret r) := h₂
    obtain ⟨es₃, es₄, r', rfl, hnode, hdrop⟩ := hbody.of_bind
    obtain ⟨u, es₅, rfl, h₅⟩ := hdrop.of_act
    obtain ⟨rfl, _⟩ := h₅.of_ret
    rcases of_withNode hnode with rfl | ⟨ref, es₆, rfl, h₆⟩
    · exact Or.inl (by simp [RtInstr.Plain])
    · obtain ⟨v, es₇, rfl, h₇⟩ := h₆.of_act
      have htake : Plays (S := service fs) n (closeAndTake k arc >>= fun handle =>
        call (fs.release k ref.record.payload handle caller)) es₇ (.ret r') := h₇
      obtain ⟨es₈, mid, payload, rfl, h₈, hcall⟩ := htake.of_bind
      obtain ⟨pre, rfl, hpre⟩ := of_closeAndTake h₈
      have hmid := hcall.performs (performs_call _)
      refine Or.inr ⟨arc, payload, ⟨n, .removeHandle k ino fh, some arc⟩ ::
        ⟨n, .node ino, some ref⟩ :: ⟨n, .removeOpen ino, v⟩ :: pre, mid,
        [⟨n, .dropNode ref, ()⟩, ⟨n, .dropArc k arc, u⟩], ref, r', by simp, ?_, hcall⟩
      simp only [List.cons_append, List.forall_mem_cons, List.forall_mem_append]
      exact ⟨by trivial, by trivial, by trivial, hpre, hmid, by simp [RtInstr.Plain]⟩

/-! ## Every handle -/

/-- Between requests a registered handle is in the table or was given back. -/
lemma custody {allow : Config (service fs) → Action (service fs) → Prop}
    {c : Config (service fs)} {es : List (Event (service fs))} (htr : Traced allow (start fs) c es)
    (hq : c.Quiet) {k : HandleKind} {ino fh : ℕ} {h : fs.Payload k}
    (ho : Opening es k ino fh h) :
    Registered c es k ino fh h ∨ GivenBack c es k ino fh h := by
  have hreg := Registry.of_traced htr
  have hinv : Inv Env.any c.state (view 0) := (holds_any htr.run).inv_quiet hq
  have hrecord := hinv.handles.record k fh
  obtain ⟨cell, hcell⟩ := Option.isSome_iff_exists.mp (hreg.stored k ino fh h ho)
  unfold RecordOk at hrecord
  rw [hcell] at hrecord
  -- no thread is closing the record, so it is in the table or released
  have hone : (if ((c.state.handles.table k).lookup fh).isSome then 1 else 0) +
      c.state.hist.released.countP (fun x => x.2 = (k, fh)) = 1 := by
    have := hrecord.one
    simpa [shares, view, View.empty] using this
  cases htab : (c.state.handles.table k).lookup fh with
  | some arc =>
    left
    obtain ⟨haddr, h', ho'⟩ := hreg.table k fh arc htab
    obtain rfl : arc.node = ino := (hreg.unique ho ho').1
    obtain rfl : arc.addr = fh := haddr
    rw [htab] at hone
    have hzero : c.state.hist.released.countP (fun x => x.2 = (k, arc.addr)) = 0 := by
      simpa using hone
    obtain ⟨h'', hpay⟩ := Option.isSome_iff_exists.mp (hrecord.payload.mpr hzero)
    have hderef : c.state.handles.deref k arc.addr = some h'' := by
      unfold Handles.deref
      rw [hcell]
      exact hpay
    obtain ⟨⟨ino', ho''⟩, hkept⟩ := hreg.cells k arc.addr h'' hderef
    obtain rfl : h'' = h := (hreg.unique ho ho'').2
    exact ⟨htab, hderef, hkept⟩
  | none =>
    right
    rw [htab] at hone
    have hpos : 0 < c.state.hist.released.countP fun x => x.2 = (k, fh) := by
      simp at hone
      omega
    obtain ⟨⟨m, _⟩, hmem, rfl⟩ := Multiset.countP_pos.mp hpos
    obtain ⟨arc, h', ha, he⟩ := hreg.released m k fh hmem
    obtain ⟨es₁, es₂, rfl⟩ := List.append_of_mem he
    have hrec : Receives k fh h' (⟨m, .take k arc, h'⟩ : Event (service fs)) := .take m arc ha
    obtain ⟨⟨ino', ho'⟩, hbefore⟩ := hreg.received es₁ _ es₂ k fh h' rfl hrec
    obtain rfl : h' = h := (hreg.unique ho (ho'.append _)).2
    have hafter : ∀ e ∈ es₂, ¬Takes k fh e := by
      intro e he' htakes
      obtain ⟨m', arc', h'', ha', rfl⟩ := htakes
      obtain ⟨es₃, es₄, rfl⟩ := List.append_of_mem he'
      refine (hreg.received (es₁ ++ ⟨m, .take k arc, h'⟩ :: es₃) _ es₄ k fh h'' (by simp)
        (.take m' arc' ha')).2 ⟨m, .take k arc, h'⟩ (by simp) ⟨m, arc, h', ha, rfl⟩
    refine ⟨htab, es₁, m, arc, es₂, rfl, ha, ?_, ?_⟩
    · intro e he'
      rcases List.mem_append.mp he' with he' | he'
      · exact hbefore e he'
      · exact hafter e he'
    · have htracked : Tracked (fun _ req => May req) Finished c _ :=
        htr.tracked rfl fun n req => tracks_serve n req
      obtain ⟨t, ht, hmay⟩ := htracked.events es₁ _ es₂ rfl
      obtain ⟨ino₁, fh₁, caller, hreq, m', hrem⟩ := hmay
      obtain ⟨haddr, h₁, ho₁⟩ := hreg.removed m' k ino₁ fh₁ arc
        (List.mem_append_left _ (mem_eventsOf.mp hrem).1)
      obtain rfl : fh₁ = fh := haddr.symm.trans ha
      obtain rfl : ino₁ = ino := (hreg.unique ho ho₁).1
      refine ⟨t, caller, ht, hreq, ?_⟩
      obtain ⟨id, req, ph⟩ := t
      obtain ⟨a, rfl⟩ := hq _ (List.mem_of_getElem? ht)
      obtain rfl : req = .release k ino₁ fh₁ caller := hreq
      have hmine := mem_eventsOf.mpr ⟨he, rfl⟩
      rcases plays_release (htr.plays rfl ht) with hplain | ⟨arc₁, payload, pre, mid, rest, ref,
          result, hev, hplain, hcall⟩
      · exact absurd ⟨m, arc, h', ha, rfl⟩ (not_takes_of_plain (hplain _ hmine))
      · -- the only event of the thread that moves a payload out
        have heq : (⟨m, .take k arc, h'⟩ : Event (service fs)) =
            ⟨m, .take k arc₁, payload⟩ := by
          rw [hev] at hmine
          by_contra hne
          refine not_takes_of_plain (hplain ⟨m, .take k arc, h'⟩ ?_) ⟨m, arc, h', ha, rfl⟩
          rcases List.mem_append.mp hmine with hm | hm
          · exact List.mem_append_left _ hm
          · rcases List.mem_cons.mp hm with hm | hm
            · exact absurd hm hne
            · exact List.mem_append_right _ hm
        cases heq
        exact ⟨pre, mid, rest, ref, result, hev, hcall⟩

/-- No handle is lost while `create` does not fail after its callback: in every state between
requests of every such run, with any filesystem and under any interleaving, every handle that a
callback has returned is registered under the number that was returned to the caller, or was passed
to `release` once. -/
theorem handles_kept {c : Config (service fs)} {es : List (Event (service fs))}
    (htr : Traced CreateKeeps (start fs) c es) (hq : c.Quiet) : HandlesKept c es := by
  intro n t k h ht hprod
  obtain ⟨id, req, ph⟩ := t
  obtain ⟨a, rfl⟩ := hq _ (List.mem_of_getElem? ht)
  generalize hev : eventsOf n es = g at hprod
  cases hprod with
  | @openNode k ino flags caller ref opened mid rest hplay =>
    obtain ⟨fh, rfl, rfl⟩ := registers_openNode htr ht hplay hev
    have hmine : (⟨n, .addHandle k ino opened.handle, fh⟩ : Event (service fs)) ∈
        eventsOf n es := by
      rw [hev]
      simp
    have hmem := (mem_eventsOf.mp hmine).1
    refine ⟨ino, fh, _, ?_, hmem, rfl, rfl, custody htr hq ⟨n, hmem⟩⟩
    have hmid := (noIssue_of_plays hplay (performs_call _)).filterMap
    rw [List.filterMap_cons_none rfl, List.filterMap_append, hmid]
    rfl
  | @create parent name mode umask flags caller id opened mid rest hplay =>
    obtain ⟨entry, fh, pre, rfl, hino, hno, rfl⟩ :=
      registers_create htr ht (fun _ _ h => h) hplay hev
    have hmine : (⟨n, .addHandle .file id opened.handle, fh⟩ : Event (service fs)) ∈
        eventsOf n es := by
      rw [hev]
      simp
    have hmem := (mem_eventsOf.mp hmine).1
    refine ⟨id, fh, _, ?_, hmem, rfl, ⟨hino, rfl⟩, custody htr hq ⟨n, hmem⟩⟩
    have hmid := (noIssue_of_plays hplay (performs_call _)).filterMap
    rw [List.filterMap_append, List.filterMap_append, hmid, hno.filterMap]
    rfl

/-- The check behind `CreateKeeps`. -/
def Sample.createCheck (c : Config (service Sample.fs)) : Action (service Sample.fs) → Bool
  | .step n _ =>
    match c.threads[n]? with
    | some ⟨_, .create _ _ _ _ _ _, .running (.act (.discard _ _) _)⟩ => false
    | _ => true
  | _ => true

lemma Sample.createKeeps_of_check (c : Config (service Sample.fs)) (a : Action (service Sample.fs))
    (h : Sample.createCheck c a = true) : CreateKeeps c a := by
  cases a with
  | step n ch =>
    rintro parent name mode umask flags caller payload ⟨id, k, ht⟩
    unfold Sample.createCheck at h
    simp [ht] at h
  | issue req => trivial
  | answer n => trivial

/-- Two files are opened and the first one is released. -/
private def twoFiles : List (Action (service Sample.fs)) :=
  [.issue (.openNode .file NodeId.ROOT 0 {})] ++ Sample.steps 0 4 ++ [.answer 0,
    .issue (.openNode .file NodeId.ROOT 0 {})] ++ Sample.steps 1 4 ++ [.answer 1,
    .issue (.release .file NodeId.ROOT 1 {})] ++ Sample.steps 2 7 ++ [.answer 2]

/-- One of two opened files is given back and the other one is registered. -/
theorem handles_kept_twoFiles : ∃ (c : Config (service Sample.fs)) (es : List (Event _)),
    Traced CreateKeeps (start Sample.fs) c es ∧ c.Quiet ∧
      c.state.hist.released = {(2, .file, 1)} ∧
      (c.state.handles.table .file).lookup 2 = some ⟨2, NodeId.ROOT⟩ ∧ HandlesKept c es := by
  have hr : Run CreateKeeps (start Sample.fs) (Sample.after Sample.createCheck twoFiles) :=
    run_of_runs Sample.createKeeps_of_check
      (show (start Sample.fs).runs Sample.createCheck twoFiles = some _ from rfl)
  obtain ⟨es, htr⟩ := hr.traced
  have hq : (Sample.after Sample.createCheck twoFiles).Quiet := by
    intro t ht
    have hthreads : (Sample.after Sample.createCheck twoFiles).threads =
        [⟨0, .openNode .file NodeId.ROOT 0 {}, .done (.ok (.opened 1 {}))⟩,
          ⟨1, .openNode .file NodeId.ROOT 0 {}, .done (.ok (.opened 2 {}))⟩,
          ⟨2, .release .file NodeId.ROOT 1 {}, .done (.ok .unit)⟩] := rfl
    rw [hthreads] at ht
    simp only [List.mem_cons, List.not_mem_nil, or_false] at ht
    rcases ht with rfl | rfl | rfl
    · exact ⟨_, rfl⟩
    · exact ⟨_, rfl⟩
    · exact ⟨_, rfl⟩
  exact ⟨_, es, htr, hq, by decide, by decide, handles_kept htr hq⟩

/-- The sample filesystem, with a `create` that works and a `getattr` that fails. -/
def Sample.blind : NodeFs :=
  { Sample.fs with
    getattr := fun _ _ _ => .ret (fail .ENOSYS)
    create := fun parent name _ _ _ _ =>
      .act (.insert (show ℕ from name.length) parent) fun id => .ret (.ok (id, ⟨(), {}⟩)) }

lemma Sample.blind_noPanic : Sample.blind.NoPanic :=
  { Sample.noPanic with
    getattr := fun _ _ _ h => nomatch h
    create := fun _ _ _ _ _ _ _ h => nomatch h }

/-- A file is created. -/
private def blindCreate : List (Action (service Sample.blind)) :=
  [.issue (.create NodeId.ROOT [97] 0 0 0 {})] ++ List.replicate 5 (.step 0 none) ++ [.answer 0]

/-- A `create` whose `getattr` fails loses the handle that the filesystem returned. -/
theorem create_loses_handle :
    ¬∀ (fs : NodeFs), fs.NoPanic →
      ∀ (c : Config (service fs)) (es : List (Event (service fs))),
      Traced anyAction (start fs) c es → c.Quiet → HandlesKept c es := by
  intro hclaim
  have hrun : ∃ c, (start Sample.blind).runs (fun _ _ => true) blindCreate = some c ∧
      c.threads = [⟨0, .create NodeId.ROOT [97] 0 0 0 {}, .done (fail Errno.ENOSYS)⟩] :=
    ⟨_, rfl, rfl⟩
  obtain ⟨c, hc, hthreads⟩ := hrun
  have hr : Run anyAction (start Sample.blind) c := run_of_runs (fun _ _ _ => trivial) hc
  obtain ⟨es, htr⟩ := hr.traced
  have hq : c.Quiet := by
    intro t ht
    rw [hthreads] at ht
    obtain rfl := List.mem_singleton.mp ht
    exact ⟨_, rfl⟩
  have ht : c.threads[0]? = some
      ⟨0, .create NodeId.ROOT [97] 0 0 0 {}, .done (fail Errno.ENOSYS)⟩ := by
    rw [hthreads]
    rfl
  have hplay := htr.plays rfl ht
  obtain ⟨id, rest, hev, _⟩ := hplay.of_act
  have hcall : Plays (S := service Sample.blind) 0
      (call (Sample.blind.create NodeId.ROOT [97] 0 0 0 {})) [⟨0, .fs (.insert _ _), id⟩]
      (.ret (.ok (id, ⟨(), {}⟩))) := .act (.refl _)
  have hprod : Produces 0 (.create NodeId.ROOT [97] 0 0 0 {}) (eventsOf 0 es) .file
      (show Sample.blind.Payload .file from ()) := by
    rw [hev]
    exact Produces.create hcall
  obtain ⟨ino, fh, a, _, _, hd, hret, _⟩ :=
    hclaim Sample.blind Sample.blind_noPanic c es htr hq 0 _
    .file () ht hprod
  cases hd
  exact hret

end TypedFuse
