import TypedFuse.Core.Custody

/-!
# Late error exits

`open`, `opendir`, `create`, `release` and `releasedir` still test whether the node is live after
the filesystem has returned a handle, or after the record of the handle was removed.  Each of these
tests is covered by a reference that the request holds: the lease of `open`, the lookup that
`entry_for` has just counted, the open of the handle that is being closed.
-/

namespace TypedFuse

open Conc Conc.Service NodeTable TypedFuse.Runtime

variable {fs : NodeFs} {n : ℕ}

/-! ## Counting an open -/

/-- An honest kernel and a filesystem that does not panic. -/
def Env.fair : Env := ⟨True, True, False⟩

/-- An open that a request wants to count is counted. -/
lemma addOpen_live (hfs : fs.NoPanic) {c : Config (service fs)} (hr : Run HonestKernel (start fs) c)
    {m ino : ℕ} {req : Request} {k : Bool → RtProg fs.toFsSig (Fallible Reply)}
    {ch : Option fs.Choice} {s : RtState fs.toFsSig} {live : Bool}
    (ht : c.threads[m]? = some ⟨n, req, .running (.act (.addOpen ino) k)⟩)
    (he : (service fs).exec n (.addOpen ino) ch c.state = some (live, s)) : live = true := by
  have hholds : (rtLogic fs Env.fair).Holds c :=
    holds_of_run (fun _ => hfs) (fun _ _ _ h => h) False.elim hr
  obtain ⟨g, F, hmeets, hinv, _⟩ := hholds.thread ht
  obtain ⟨C, f, hC, rfl, _⟩ := hmeets
  rw [add_assoc] at hinv
  have hexec : c.state.exec n (.addOpen ino) ch = some (live, s) := he
  obtain ⟨g, hg, _⟩ := RtContract.exec hC hexec hinv False.elim
  cases hC with
  | addOpen ref gen => exact hg.1
  | addOpenCreated _ =>
    rcases hg with ⟨hlive, _⟩ | ⟨_, hdishonest, _⟩
    · exact hlive
    · exact absurd trivial hdishonest

/-! ## Closing a handle -/

/-- What is left of `release` and `releasedir` when the record was removed and the node was
looked up. -/
def afterRemove (k : HandleKind) (ino : ℕ) (caller : Caller) (record : HandleArc) :
    Option (NodeRef fs.Node) → RtProg fs.toFsSig (Fallible Reply)
  | none => .act (.dropArc k record) fun _ => .ret (fail .ENOENT)
  | some ref => .act (.removeOpen ino) fun _ =>
    closeAndTake k record >>= fun handle =>
      call (fs.release k ref.record.payload handle caller) >>= fun result =>
        .act (.dropNode ref) fun _ => .act (.dropArc k record) fun _ =>
          .ret (result.map fun _ => .unit)

lemma plays_removed {k : HandleKind} {ino fh : ℕ} {caller : Caller} (record : HandleArc) :
    Plays (S := service fs) n (serve fs (.release k ino fh caller))
      [⟨n, .removeHandle k ino fh, some record⟩]
      (.act (.node ino) (afterRemove k ino caller record)) := by
  have hremove : Plays (S := service fs) n (sect (.removeHandle k ino fh))
      [⟨n, .removeHandle k ino fh, some record⟩] (.ret (some record)) := .act (.refl _)
  refine Plays.congr (Plays.bind (Plays.bind hremove)) ?_
  refine congrArg (Prog.act _) ?_
  funext ref
  cases ref with
  | none => rfl
  | some ref =>
    refine congrArg (Prog.act _) ?_
    funext u
    change ((((closeAndTake k record >>= fun handle =>
      call (fs.release k ref.record.payload handle caller)) >>= fun result =>
        sect (.dropNode ref) >>= fun _ => .ret result) >>= fun result =>
          sect (.dropArc k record) >>= fun _ => .ret result) >>= fun r =>
            .ret (r.map fun _ => Reply.unit)) = _
    simp only [Prog.bind_bind]
    rfl

/-- The node of a handle whose record was removed is live. -/
lemma release_live {allow : Config (service fs) → Action (service fs) → Prop}
    {c : Config (service fs)} {es : List (Event (service fs))} (htr : Traced allow (start fs) c es)
    {k : HandleKind} {ino fh : ℕ} {caller : Caller} {record : HandleArc} {i : ℕ}
    (ht : c.threads[n]? = some ⟨i, .release k ino fh caller,
      .running (.act (.node ino) (afterRemove k ino caller record))⟩)
    (hev : eventsOf n es = [⟨n, .removeHandle k ino fh, some record⟩])
    {ch : Option fs.Choice} {s : RtState fs.toFsSig} {r : Option (NodeRef fs.Node)}
    (he : (service fs).exec n (.node ino) ch c.state = some (r, s)) : r ≠ none := by
  rintro rfl
  have hholds := holds_any htr.run
  obtain rfl : i = n := hholds.numbered n _ ht
  obtain ⟨g, F, hmeets, hinv, _⟩ := hholds.thread ht
  obtain ⟨C, f, hC, rfl, hgive⟩ := hmeets
  have hinv' := hinv
  rw [add_assoc] at hinv'
  have hexec : c.state.exec i (.node ino) ch = some (none, s) := he
  obtain ⟨g, hg, _⟩ := RtContract.exec hC hexec hinv' False.elim
  cases hC with
  | nodeOpen _ =>
    obtain ⟨ref, gen, hsome, _⟩ := hg
    cases hsome
  | node _ =>
    -- the rest answers `ENOENT`, so the thread would already have moved the payload out
    obtain ⟨C₁, f₁, hC₁, heq₁, hgive₁⟩ := hgive none 0 (Or.inl ⟨rfl, rfl⟩)
    cases hC₁ with
    | dropArc =>
      have hpost : Post Env.any i (.release k ino fh caller) (fail .ENOENT) (0 + f₁) :=
        hgive₁ () 0 rfl
      rw [zero_add] at hpost heq₁
      obtain ⟨_, _, ⟨hbad, _⟩ | rfl⟩ := hpost
      · cases hbad
      · have hmem : (i, k, fh) ∈ c.state.hist.released := by
          refine hinv.handles.took _ ?_
          rw [heq₁]
          change (i, k, fh) ∈ (view (0 + {.arc k record.addr} + {.took i k fh} + F)).took
          rw [zero_add, view_pair]
          exact Multiset.mem_cons_self _ _
        obtain ⟨arc, h, _, htake⟩ := (Registry.of_traced htr).released i k fh hmem
        have hmine := mem_eventsOf.mpr ⟨htake, rfl⟩
        rw [hev, List.mem_singleton] at hmine
        cases hmine

/-- The instruction is not a lookup of a node. -/
def RtInstr.NotNode {σ : FsSig} : RtInstr σ → Prop
  | .node _ => False
  | _ => True

lemma performs_close (k : HandleKind) (record : HandleArc) :
    (closeAndTake k record : RtProg fs.toFsSig _).Performs RtInstr.NotNode := by
  have htake : (sect (.take k record) : RtProg fs.toFsSig _).Performs RtInstr.NotNode :=
    Prog.performs_perform (by trivial)
  refine (Prog.performs_perform (by trivial)).bind fun drained => ?_
  cases drained with
  | true => exact htake
  | false => exact (Prog.performs_perform (by trivial)).bind fun _ => htake

/-- The rest of `release` looks up no other node. -/
lemma performs_afterRemove (k : HandleKind) (ino : ℕ) (caller : Caller) (record : HandleArc)
    (ref : NodeRef fs.Node) :
    (afterRemove k ino caller record (some ref)).Performs RtInstr.NotNode := by
  refine ⟨by trivial, fun _ => (performs_close k record).bind fun handle => ?_⟩
  refine (Prog.performs_embed (fun _ => by trivial) _).bind fun result => ?_
  exact ⟨by trivial, fun _ => ⟨by trivial, fun _ => Prog.performs_ret _⟩⟩

/-- A release that has removed a record finds its node, and what is left of it runs. -/
lemma release_removed {allow : Config (service fs) → Action (service fs) → Prop}
    {c : Config (service fs)} {es : List (Event (service fs))} (htr : Traced allow (start fs) c es)
    {k : HandleKind} {ino fh : ℕ} {caller : Caller} {record : HandleArc} {ph : Phase (service fs)}
    (ht : c.threads[n]? = some ⟨n, .release k ino fh caller, ph⟩)
    (hmem : ⟨n, .removeHandle k ino fh, some record⟩ ∈ es) :
    ∃ record' g, eventsOf n es = ⟨n, .removeHandle k ino fh, some record'⟩ :: g ∧
      ((g = [] ∧ ph.rest = .act (.node ino) (afterRemove k ino caller record')) ∨
        ∃ ref g', g = ⟨n, .node ino, some ref⟩ :: g' ∧
          Plays (S := service fs) n (afterRemove k ino caller record' (some ref)) g' ph.rest) := by
  have hmine : ⟨n, .removeHandle k ino fh, some record⟩ ∈ eventsOf n es :=
    mem_eventsOf.mpr ⟨hmem, rfl⟩
  have hplay : Plays (S := service fs) n (serve fs (.release k ino fh caller)) (eventsOf n es)
      ph.rest := htr.plays rfl ht
  obtain ⟨hnil, _⟩ | ⟨r, g, hev, hrest⟩ :=
    Plays.first (S := service fs) (i := RtInstr.removeHandle k ino fh) hplay
  · rw [hnil] at hmine
    cases hmine
  rw [hev] at hmine hplay
  cases r with
  | none =>
    -- `EBADF`: nothing else was performed
    obtain rfl : g = [] := hrest.ret_events
    cases List.mem_singleton.mp hmine
  | some record' =>
    refine ⟨record', g, hev, ?_⟩
    have hleft : Plays (S := service fs) n
        (.act (.node ino) (afterRemove k ino caller record')) g ph.rest :=
      (plays_removed record').cancel hplay
    obtain ⟨rfl, hph⟩ | ⟨found, g', rfl, hafter⟩ := hleft.first
    · exact Or.inl ⟨rfl, hph⟩
    cases found with
    | some ref => exact Or.inr ⟨ref, g', rfl, hafter⟩
    | none =>
      obtain ⟨c₁, es₁, ch, s, htr₁, hpast, _, ht₁, he, _⟩ :=
        fired_past htr ht (plays_removed record') hev
      exact absurd rfl (release_live htr₁ ht₁ hpast he)

/-- The thread has passed the handle to the callback of `release` or `releasedir`, which
returned. -/
def PassesToRelease (es : List (Event (service fs))) (n : ℕ) (k : HandleKind) (ino : ℕ)
    (caller : Caller) (h : fs.Payload k) (result : Fallible Unit) : Prop :=
  ∃ (ref : NodeRef fs.Node) (pre mid rest : List (Event (service fs))),
    eventsOf n es = pre ++ (mid ++ rest) ∧ ⟨n, .node ino, some ref⟩ ∈ pre ∧
    Plays (S := service fs) n (call (fs.release k ref.record.payload h caller)) mid (.ret result)

/-- A `release` that has returned after it found its node has called the filesystem. -/
lemma of_afterRemove {k : HandleKind} {ino : ℕ} {caller : Caller} {record : HandleArc}
    {ref : NodeRef fs.Node} {g : List (Event (service fs))} {a : Fallible Reply}
    (h : Plays (S := service fs) n (afterRemove k ino caller record (some ref)) g (.ret a)) :
    ∃ (payload : fs.Payload k) (result : Fallible Unit)
      (pre mid rest : List (Event (service fs))),
      g = pre ++ ⟨n, .take k record, payload⟩ :: (mid ++ rest) ∧
      Plays (S := service fs) n (call (fs.release k ref.record.payload payload caller)) mid
        (.ret result) ∧
      a = result.map fun _ => .unit := by
  obtain ⟨u, g₁, rfl, h₁⟩ := h.of_act
  obtain ⟨g₂, g₃, payload, rfl, hclose, h₃⟩ := h₁.of_bind
  obtain ⟨pre, rfl, _⟩ := of_closeAndTake hclose
  obtain ⟨mid, rest, result, rfl, hcall, h₅⟩ := h₃.of_bind
  obtain ⟨v, g₆, rfl, h₆⟩ := h₅.of_act
  obtain ⟨w, g₇, rfl, h₇⟩ := h₆.of_act
  obtain ⟨rfl, ha⟩ := h₇.of_ret
  refine ⟨payload, result, ⟨n, .removeOpen ino, u⟩ :: pre, mid,
    [⟨n, .dropNode ref, v⟩, ⟨n, .dropArc k record, w⟩], ?_, hcall, ha⟩
  simp

/-- The late error exits are not taken. -/
structure NoLateExit (c : Config (service fs)) (es : List (Event (service fs))) : Prop where
  /-- Every open that `open`, `opendir` or `create` wants to count is counted. -/
  counted : ∀ m ino live, ⟨m, .addOpen ino, live⟩ ∈ es → live = true
  /-- A `release` that has removed the record of its handle never misses its node. -/
  found : ∀ m k ino fh caller ph record, c.threads[m]? =
    some ⟨m, .release k ino fh caller, ph⟩ →
    ⟨m, .removeHandle k ino fh, some record⟩ ∈ es → ⟨m, .node ino, none⟩ ∉ es
  /-- When it has answered, it has passed the registered handle to the filesystem, and its answer is
  what the filesystem returned. -/
  passed : ∀ m k ino fh caller a record,
    c.threads[m]? = some ⟨m, .release k ino fh caller, .done a⟩ →
    ⟨m, .removeHandle k ino fh, some record⟩ ∈ es →
      ∃ h result, Opening es k ino fh h ∧ PassesToRelease es m k ino caller h result ∧
        a = result.map fun _ => .unit

/-- A late error exit is not taken in any run with an honest kernel and a filesystem that does not
panic. -/
theorem late_exits_unreachable (hfs : fs.NoPanic) {c : Config (service fs)}
    {es : List (Event (service fs))} (htr : Traced HonestKernel (start fs) c es) :
    NoLateExit c es := by
  constructor
  case counted =>
    intro m ino live hmem
    obtain ⟨es₁, es₂, hes⟩ := List.append_of_mem hmem
    obtain ⟨c₁, i, req, k, ch, s, htr₁, _, ht₁, he, _⟩ := htr.fired hes
    obtain rfl : m = i := (holds_any htr₁.run).numbered i _ ht₁
    exact addOpen_live hfs htr₁.run ht₁ he
  case found =>
    intro m k ino fh caller ph record ht hmem hnone
    obtain ⟨record', g, hev, hrest⟩ := release_removed htr ht hmem
    have hmine := mem_eventsOf.mpr ⟨hnone, rfl⟩
    rw [hev] at hmine
    rcases List.mem_cons.mp hmine with heq | hmine
    · cases heq
    obtain ⟨rfl, _⟩ | ⟨ref, g', rfl, hplay⟩ := hrest
    · cases hmine
    rcases List.mem_cons.mp hmine with heq | hmine
    · cases heq
    · exact hplay.performs (performs_afterRemove k ino caller record' ref) _ hmine
  case passed =>
    intro m k ino fh caller a record ht hmem
    obtain ⟨record', g, hev, hrest⟩ := release_removed htr ht hmem
    obtain ⟨_, hph⟩ | ⟨ref, g', rfl, hplay⟩ := hrest
    · cases hph
    obtain ⟨payload, result, pre, mid, rest, rfl, hcall, ha⟩ := of_afterRemove hplay
    have hreg := Registry.of_traced htr
    have hremove : (⟨m, .removeHandle k ino fh, some record'⟩ : Event (service fs)) ∈
        eventsOf m es := by
      rw [hev]
      exact List.mem_cons_self
    have htake : (⟨m, .take k record', payload⟩ : Event (service fs)) ∈ eventsOf m es := by
      rw [hev]
      simp
    obtain ⟨haddr, h, ho⟩ := hreg.removed m k ino fh record' (mem_eventsOf.mp hremove).1
    obtain ⟨es₁, es₂, hes⟩ := List.append_of_mem (mem_eventsOf.mp htake).1
    obtain ⟨⟨ino', ho'⟩, _⟩ := hreg.received es₁ _ es₂ k fh payload hes
      (.take m record' haddr)
    have ho'' : Opening es k ino' fh payload := hes ▸ ho'.append _
    -- what was moved out is what was registered
    obtain rfl : payload = h := (hreg.unique ho ho'').2
    refine ⟨payload, result, ho, ⟨ref, ⟨m, .removeHandle k ino fh, some record'⟩ ::
      ⟨m, .node ino, some ref⟩ :: (pre ++ [⟨m, .take k record', payload⟩]), mid, rest,
      ?_, ?_, hcall⟩, ha⟩
    · rw [hev]
      simp
    · exact List.mem_cons_of_mem _ List.mem_cons_self

/-- A file is looked up and opened.  When a `release` has removed the record of the handle, the name
is removed and the lookup is forgotten, and then the `release` goes on. -/
private def releaseLast : List (Action (service Sample.fs)) :=
  [Sample.lookup [97]] ++ Sample.steps 0 5 ++ [.answer 0, .issue (.openNode .file 2 0 {})] ++
    Sample.steps 1 4 ++ [.answer 1, .issue (.treeOp (.unlink NodeId.ROOT [97]) {}),
    .issue (.forget 2 1), .issue (.release .file 2 1 {})] ++ Sample.steps 4 1 ++
    Sample.steps 2 1 ++ Sample.steps 3 1 ++ [.answer 2, .answer 3] ++ Sample.steps 4 6 ++
    [.answer 4]

/-- The open of the handle alone keeps the node for the `release`. -/
theorem late_exits_unreachable_releaseLast :
    ∃ (c : Config (service Sample.fs)) (es : List (Event _)),
      Traced HonestKernel (start Sample.fs) c es ∧ c.state.table.slot 2 = none ∧
      c.threads[4]? = some ⟨4, .release .file 2 1 {}, .done (Except.ok Reply.unit)⟩ ∧
      NoLateExit c es := by
  have hr : Run HonestKernel (start Sample.fs) (Sample.after Sample.honestCheck releaseLast) :=
    run_of_runs Sample.honestKernel_of_check
      (show (start Sample.fs).runs Sample.honestCheck releaseLast = some _ from rfl)
  obtain ⟨es, htr⟩ := hr.traced
  exact ⟨_, es, htr, rfl, rfl, late_exits_unreachable Sample.noPanic htr⟩

end TypedFuse
