import TypedFuse.Conc.Trace
import TypedFuse.Core.Excess
import TypedFuse.Core.Safety

/-!
# Handle routing

Which payload an operation on a handle gets.  A request names a handle by an inode and a number, and
the check takes three sections: the node is leased, the record is looked up under the number, and
the record grants a lease.  The statements below are about traces, since they compare moments of a
run: a payload is received only after an `open` or `create` of the same inode has registered it
under the number, and before it is moved out for `release`; a request that receives no payload is
refused, has called nothing and leaves the counters as it found them.
-/

namespace TypedFuse

open Conc Conc.Service NodeTable TypedFuse.Runtime

variable {fs : NodeFs} {α β : Type}

/-! ## Requests and events about handles -/

/-- The handle that a request names: its kind, the inode and the number. -/
def Request.handle : Request → Option (HandleKind × ℕ × ℕ)
  | .getattr ino (some fh) _ => some (.file, ino, fh)
  | .setattr ino (some fh) _ _ => some (.file, ino, fh)
  | .fileOp _ ino fh _ => some (.file, ino, fh)
  | .fsyncdir ino fh _ _ => some (.dir, ino, fh)
  | .release k ino fh _ => some (k, ino, fh)
  | .readdir ino fh _ _ _ => some (.dir, ino, fh)
  | .readdirplus ino fh _ _ _ => some (.dir, ino, fh)
  | _ => none

/-- A request that opens a handle of a kind: `open` and `opendir` of this inode, and `create`. -/
def Request.Opens (k : HandleKind) (ino : ℕ) : Request → Prop
  | .openNode k' ino' _ _ => k' = k ∧ ino' = ino
  | .create _ _ _ _ _ _ => k = .file
  | _ => False

/-- An answer that returns the handle number `fh` for the inode. -/
def Returned (ino fh : ℕ) : Fallible Reply → Prop
  | .ok (.opened fh' _) => fh' = fh
  | .ok (.created e fh' _) => e.reply.ino = ino ∧ fh' = fh
  | _ => False

/-- The handle number that an event issues. -/
def issued (e : Event (service fs)) : Option ℕ :=
  match e with
  | ⟨_, .addHandle _ _ _, fh⟩ => some (show ℕ from fh)
  | _ => none

/-- An event in which a thread receives the payload of a handle: to call the filesystem with it
under a lease, or to give it back to the filesystem. -/
inductive Receives (k : HandleKind) (a : ℕ) (h : fs.Payload k) : Event (service fs) → Prop where
  | deref (n : ℕ) (arc : HandleArc) (ha : arc.addr = a) : Receives k a h ⟨n, .deref k arc, h⟩
  | take (n : ℕ) (arc : HandleArc) (ha : arc.addr = a) : Receives k a h ⟨n, .take k arc, h⟩

/-- An event in which the payload of a handle is moved out of its record for `release`. -/
def Takes (k : HandleKind) (a : ℕ) (e : Event (service fs)) : Prop :=
  ∃ n arc h, arc.addr = a ∧ e = ⟨n, .take k arc, h⟩

/-- What `file` and `dir` do when they refuse a handle: it is not registered, it belongs to another
inode, or it is being closed. -/
inductive Denied (n : ℕ) (k : HandleKind) (ino fh : ℕ) :
    List (Event (service fs)) → Prop where
  | unregistered : Denied n k ino fh [⟨n, .findHandle k fh, none⟩]
  | foreign (arc : HandleArc) (h : arc.node ≠ ino) : Denied n k ino fh
      [⟨n, .findHandle k fh, some arc⟩, ⟨n, .dropArc k arc, ()⟩]
  | closing (arc : HandleArc) : Denied n k ino fh
      [⟨n, .findHandle k fh, some arc⟩, ⟨n, .acquire k arc, false⟩,
        ⟨n, .dropArc k arc, ()⟩]

/-- All that a thread does whose request is refused with an error: the inode is not live, or the
handle is denied.  Nothing is called, and a lease that was taken is dropped again. -/
inductive Refused (n : ℕ) (k : HandleKind) (ino fh : ℕ) :
    Errno → List (Event (service fs)) → Prop where
  | dead : Refused n k ino fh .ENOENT [⟨n, .node ino, none⟩]
  | gone (ref : NodeRef fs.Node) : Refused n k ino fh .ENOENT
      [⟨n, .node ino, some ref⟩, ⟨n, .parentOf ino, none⟩, ⟨n, .dropNode ref, ()⟩]
  | denied (ref : NodeRef fs.Node) {es : List (Event (service fs))} (h : Denied n k ino fh es) :
      Refused n k ino fh .EBADF
        ([⟨n, .node ino, some ref⟩] ++ es ++ [⟨n, .dropNode ref, ()⟩])
  | deniedDir (ref : NodeRef fs.Node) (parent : NodeId) {es : List (Event (service fs))}
      (h : Denied n k ino fh es) :
      Refused n k ino fh .EBADF
        ([⟨n, .node ino, some ref⟩, ⟨n, .parentOf ino, some parent⟩] ++ es ++
          [⟨n, .dropNode ref, ()⟩])
  | release : Refused n k ino fh .EBADF [⟨n, .removeHandle k ino fh, none⟩]

/-! ## The past of a request -/

/-- Instructions that neither issue a handle nor receive a payload. -/
def RtInstr.Plain {σ : FsSig} : RtInstr σ → Prop
  | .addHandle _ _ _ | .deref _ _ | .take _ _ => False
  | _ => True

/-- A payload was received. -/
def Received (past : List (Event (service fs))) : Prop :=
  ∃ e ∈ past, ∃ k a h, Receives k a h e

/-- No handle was issued. -/
def NoIssue (past : List (Event (service fs))) : Prop :=
  ∀ e ∈ past, issued e = none

/-- What a request may do after a past: a callback is called once a payload was received, a payload
is received through the record found under the named number, and only requests that open a handle
issue one. -/
def May (req : Request) (past : List (Event (service fs))) : (service fs).Instr → Prop
  | .fs _ => req.handle.isSome → Received past
  | .deref k arc => ∃ ino fh, req.handle = some (k, ino, fh) ∧ arc.node = ino ∧
      ∃ n, ⟨n, .findHandle k fh, some arc⟩ ∈ past
  | .take k arc => ∃ ino fh caller, req = .release k ino fh caller ∧
      ∃ n, ⟨n, .removeHandle k ino fh, some arc⟩ ∈ past
  | .addHandle k ino _ => req.Opens k ino
  | _ => True

/-- What a finished request has done. -/
structure Finished (n : ℕ) (req : Request) (a : Fallible Reply)
    (past : List (Event (service fs))) : Prop where
  /-- Without a payload, it was refused; or `release` did not find the node. -/
  handle : ∀ k ino fh, req.handle = some (k, ino, fh) → Received past ∨
    (∃ errno, a = fail errno ∧ Refused n k ino fh errno past) ∨
    ((∃ caller, req = .release k ino fh caller) ∧ a = fail .ENOENT)
  /-- A number that it issued is in its answer. -/
  issued : ∀ m k ino h fh, ⟨m, .addHandle k ino h, fh⟩ ∈ past → Returned ino fh a

lemma Received.append {past more : List (Event (service fs))} (h : Received past) :
    Received (past ++ more) := by
  obtain ⟨e, he, hrec⟩ := h
  exact ⟨e, List.mem_append_left _ he, hrec⟩

lemma NoIssue.append {past more : List (Event (service fs))} (h : NoIssue past)
    (h' : NoIssue more) : NoIssue (past ++ more) := by
  intro e he
  rcases List.mem_append.mp he with he | he
  · exact h e he
  · exact h' e he

lemma noIssue_plain {n : ℕ} {i : RtInstr fs.toFsSig} (hi : i.Plain) (r : i.Resp) :
    NoIssue ([⟨n, i, r⟩] : List (Event (service fs))) := by
  intro e he
  obtain rfl := List.mem_singleton.mp he
  cases i with
  | addHandle => exact absurd hi id
  | _ => rfl

/-- A past without issued handles leaves nothing to say about them. -/
lemma NoIssue.finished {n : ℕ} {req : Request} {a : Fallible Reply}
    {past : List (Event (service fs))} (h : NoIssue past)
    (hh : ∀ k ino fh, req.handle = some (k, ino, fh) → Received past ∨
      (∃ errno, a = fail errno ∧ Refused n k ino fh errno past) ∨
      ((∃ caller, req = .release k ino fh caller) ∧ a = fail .ENOENT)) :
    Finished n req a past := by
  refine ⟨hh, ?_⟩
  intro m k ino h' fh hm
  have hnone := h _ hm
  cases hnone

section Tracks

variable {n : ℕ} {req : Request} {past : List (Event (service fs))}

lemma may_plain {i : RtInstr fs.toFsSig} (hi : i.Plain) (h : req.handle.isSome → Received past) :
    May req past i := by
  cases i with
  | addHandle | deref | take => exact absurd hi id
  | fs => exact h
  | _ => trivial

/-- Instructions that do not concern handles change nothing about the past that matters. -/
lemma tracks_plain {p : RtProg fs.toFsSig α} (hp : p.Performs RtInstr.Plain)
    (hr : req.handle.isSome → Received past) (hn : NoIssue past) :
    Tracks (S := service fs) (May req) n past p
      fun _ g => (req.handle.isSome → Received g) ∧ NoIssue g := by
  induction p generalizing past with
  | ret a => exact ⟨hr, hn⟩
  | act i k ih =>
    refine ⟨may_plain hp.1 hr, ?_⟩
    intro r
    exact ih r (hp.2 r) (fun hs => (hr hs).append) (hn.append (noIssue_plain hp.1 r))

/-- `node(ino)?` and the rest of the function. -/
lemma tracks_withNode {ino : ℕ} {body : NodeRef fs.Node → RtProg fs.toFsSig (Fallible α)}
    {Q : Fallible α → List (Event (service fs)) → Prop}
    (hdead : Q (fail .ENOENT) (past ++ [⟨n, .node ino, none⟩]))
    (hbody : ∀ ref, Tracks (S := service fs) (May req) n (past ++ [⟨n, .node ino, some ref⟩])
      (body ref) fun a g => Q a (g ++ [⟨n, .dropNode ref, ()⟩])) :
    Tracks (S := service fs) (May req) n past (withNode ino body) Q := by
  refine Tracks.step (by trivial) ?_
  intro r
  cases r with
  | none => exact hdead
  | some ref =>
    change Tracks (S := service fs) (May req) n _
      (body ref >>= fun result => sect (.dropNode ref) >>= fun _ => .ret result) Q
    refine Tracks.bind (hbody ref) ?_
    intro a g hQ
    exact Tracks.step (by trivial) fun _ => hQ

/-- `file(ino, fh)?` or `dir(ino, fh)?` and the rest of the function. -/
lemma tracks_withHandle {k : HandleKind} {ino fh : ℕ} (hreq : req.handle = some (k, ino, fh))
    {body : fs.Payload k → RtProg fs.toFsSig (Fallible α)}
    (hbody : ∀ h, (body h).Performs RtInstr.Plain) (hn : NoIssue past)
    {Q : Fallible α → List (Event (service fs)) → Prop}
    (hdenied : ∀ es, Denied n k ino fh es → Q (fail .EBADF) (past ++ es))
    (hok : ∀ a g, Received g → NoIssue g → Q a g) :
    Tracks (S := service fs) (May req) n past (withHandle k ino fh body) Q := by
  refine Tracks.step (by trivial) ?_
  intro r
  cases r with
  | none => exact hdenied _ .unregistered
  | some arc =>
    refine Prog.wp_ite (fun hnode => ?_) fun hnode => ?_
    · refine Tracks.step (by trivial) ?_
      intro granted
      cases granted with
      | false =>
        refine Tracks.step (by trivial) ?_
        rintro ⟨⟩
        have hd := hdenied _ (.closing arc)
        refine Tracks.ret ?_
        simpa using hd
      | true =>
        refine Tracks.step (by trivial) fun _ => Tracks.step ?_ ?_
        · refine ⟨ino, fh, hreq, hnode, n, ?_⟩
          simp
        · intro h
          refine Tracks.bind (tracks_plain (hbody h) (fun _ => ?_) ?_) ?_
          · exact ⟨_, List.mem_append_right _ (List.mem_singleton_self _), k, arc.addr, h,
              .deref n arc rfl⟩
          · refine (((hn.append ?_).append ?_).append ?_).append ?_
            all_goals
              intro e he
              obtain rfl := List.mem_singleton.mp he
              rfl
          · rintro a g ⟨hrec, hno⟩
            have hrec' := hrec (by rw [hreq]; rfl)
            refine Tracks.step (by trivial) fun _ => Tracks.step (by trivial) fun _ => hok a _ ?_ ?_
            · exact hrec'.append.append
            · refine (hno.append ?_).append ?_
              all_goals
                intro e he
                obtain rfl := List.mem_singleton.mp he
                rfl
    · refine Tracks.step (by trivial) ?_
      rintro ⟨⟩
      have hd := hdenied _ (.foreign arc hnode)
      refine Tracks.ret ?_
      simpa using hd

/-- The outcome of a request on a handle: it has received a payload or was refused. -/
def Routed (n : ℕ) (k : HandleKind) (ino fh : ℕ) (a : Fallible α)
    (g : List (Event (service fs))) : Prop :=
  NoIssue g ∧ (Received g ∨ ∃ errno, a = fail errno ∧ Refused n k ino fh errno g)

lemma Routed.finished {k : HandleKind} {ino fh : ℕ} {a : Fallible α}
    {g : List (Event (service fs))} (h : Routed n k ino fh a g)
    (hreq : req.handle = some (k, ino, fh)) (f : α → Reply) : Finished n req (a.map f) g := by
  refine h.1.finished ?_
  intro k' ino' fh' heq
  rw [hreq] at heq
  cases heq
  rcases h.2 with hrec | ⟨errno, rfl, href⟩
  · exact Or.inl hrec
  · exact Or.inr (Or.inl ⟨errno, rfl, href⟩)

private lemma noIssue_of_forall {g : List (Event (service fs))}
    (h : g.all fun e => issued e = none) :
    NoIssue g := by
  intro e he
  simpa using List.all_eq_true.mp h e he

lemma Denied.noIssue {k : HandleKind} {ino fh : ℕ} {es : List (Event (service fs))}
    (h : Denied n k ino fh es) : NoIssue es := by
  cases h <;> exact noIssue_of_forall rfl

lemma Refused.noIssue {k : HandleKind} {ino fh : ℕ} {errno : Errno}
    {es : List (Event (service fs))} (h : Refused n k ino fh errno es) : NoIssue es := by
  cases h with
  | dead | gone | release => exact noIssue_of_forall rfl
  | denied ref hd =>
    exact ((noIssue_of_forall rfl).append hd.noIssue).append (noIssue_of_forall rfl)
  | deniedDir ref parent hd =>
    exact ((noIssue_of_forall rfl).append hd.noIssue).append (noIssue_of_forall rfl)

lemma Refused.routed {k : HandleKind} {ino fh : ℕ} {errno : Errno}
    {es : List (Event (service fs))} (h : Refused n k ino fh errno es) :
    Routed n k ino fh (fail errno : Fallible α) es :=
  ⟨h.noIssue, Or.inr ⟨errno, rfl, h⟩⟩

lemma routed_received {k : HandleKind} {ino fh : ℕ} {a : Fallible α}
    {es : List (Event (service fs))} (hr : Received es) (hn : NoIssue es) {ref : NodeRef fs.Node} :
    Routed n k ino fh a (es ++ [⟨n, .dropNode ref, ()⟩]) :=
  ⟨hn.append (noIssue_of_forall rfl), Or.inl hr.append⟩

/-- The operations that lease the node and the handle. -/
lemma tracks_handled {k : HandleKind} {ino fh : ℕ} (hreq : req.handle = some (k, ino, fh))
    {body : NodeRef fs.Node → fs.Payload k → RtProg fs.toFsSig (Fallible α)}
    (hbody : ∀ node h, (body node h).Performs RtInstr.Plain) :
    Tracks (S := service fs) (May req) n []
      (withNode ino fun node => withHandle k ino fh (body node)) (Routed n k ino fh) := by
  refine tracks_withNode (Refused.routed .dead) ?_
  intro ref
  refine tracks_withHandle hreq (hbody ref) (noIssue_of_forall rfl) ?_ ?_
  · intro es hd
    exact (Refused.denied ref hd).routed
  · intro a g hr hn
    exact routed_received hr hn

/-- The operations that also look up the parent of the directory. -/
lemma tracks_listed {ino fh : ℕ} (hreq : req.handle = some (.dir, ino, fh))
    {body : NodeRef fs.Node → Option NodeId → RtProg fs.toFsSig (Fallible α)}
    {list : NodeRef fs.Node → NodeId → fs.Payload .dir → RtProg fs.toFsSig (Fallible α)}
    (hnone : ∀ node, body node none = .ret (fail .ENOENT))
    (hsome : ∀ node parent, body node (some parent) = withHandle .dir ino fh (list node parent))
    (hlist : ∀ node parent h, (list node parent h).Performs RtInstr.Plain) :
    Tracks (S := service fs) (May req) n []
      (withNode ino fun node => sect (.parentOf ino) >>= body node) (Routed n .dir ino fh) := by
  refine tracks_withNode (Refused.routed .dead) ?_
  intro ref
  refine Tracks.step (by trivial) ?_
  intro parent
  cases parent with
  | none =>
    rw [hnone]
    exact (Refused.gone ref).routed
  | some parent =>
    rw [hsome]
    refine tracks_withHandle hreq (hlist ref parent) (noIssue_of_forall rfl) ?_ ?_
    · intro es hd
      exact (Refused.deniedDir ref parent hd).routed
    · intro a g hr hn
      exact routed_received hr hn

/-! ## What the entry points may do -/

lemma performs_call (p : FsProg fs.toFsSig α) : (call p).Performs RtInstr.Plain :=
  Prog.performs_embed (fun _ => by trivial) p

lemma performs_sect {i : RtInstr fs.toFsSig} (hi : i.Plain) : (sect i).Performs RtInstr.Plain :=
  Prog.performs_perform hi

lemma performs_withNode {ino : ℕ} {body : NodeRef fs.Node → RtProg fs.toFsSig (Fallible α)}
    (hbody : ∀ node, (body node).Performs RtInstr.Plain) :
    (withNode ino body).Performs RtInstr.Plain := by
  refine (performs_sect (by trivial)).bind ?_
  rintro (_ | node)
  · exact Prog.performs_ret _
  · exact (hbody node).bind fun a => (performs_sect (by trivial)).bind fun _ => Prog.performs_ret _

lemma performs_onOk {a : Fallible α} {f : α → RtProg fs.toFsSig (Fallible β)}
    (hf : ∀ a, (f a).Performs RtInstr.Plain) : (onOk a f).Performs RtInstr.Plain := by
  cases a with
  | error e => exact Prog.performs_ret _
  | ok a => exact hf a

lemma performs_forgetAll (ids : List NodeId) :
    (forgetAll ids : RtProg fs.toFsSig Unit).Performs RtInstr.Plain := by
  induction ids with
  | nil => exact Prog.performs_ret _
  | cons id ids ih => exact (performs_sect (by trivial)).bind fun _ => ih

lemma performs_entryFor (id : NodeId) (caller : Caller) :
    (entryFor fs id caller).Performs RtInstr.Plain := by
  refine (performs_sect (by trivial)).bind fun den => (performs_sect (by trivial)).bind ?_
  rintro (_ | node)
  · exact Prog.performs_ret _
  refine (performs_call _).bind ?_
  rintro (e | attr)
  · exact (performs_sect (by trivial)).bind fun _ => Prog.performs_ret _
  refine (performs_sect (by trivial)).bind ?_
  rintro (_ | generation)
  · exact (performs_sect (by trivial)).bind fun _ => Prog.performs_ret _
  · exact (performs_sect (by trivial)).bind fun _ => Prog.performs_ret _

lemma performs_add (sink : Sink PlusEntry) (acc : Accounting) (name : Name) (id : NodeId)
    (attr : NodeAttr) (nextOffset : ℕ) :
    (Accounting.add sink acc name id attr nextOffset : RtProg fs.toFsSig _).Performs
      RtInstr.Plain := by
  refine (performs_sect (by trivial)).bind ?_
  rintro (_ | generation)
  · exact Prog.performs_ret _
  dsimp only
  split
  · split
    · refine (performs_sect (by trivial)).bind ?_
      rintro (_ | _)
      · exact Prog.performs_ret _
      · exact Prog.performs_ret _
    · exact Prog.performs_ret _
  · exact Prog.performs_ret _

/-- `close_and_take` receives the payload of the record that was removed. -/
lemma tracks_closeAndTake {k : HandleKind} {ino fh : ℕ} {caller : Caller} {arc : HandleArc}
    (hreq : req = .release k ino fh caller)
    (hfound : ⟨n, .removeHandle k ino fh, some arc⟩ ∈ past) (hn : NoIssue past) :
    Tracks (S := service fs) (May req) n past (closeAndTake k arc)
      fun _ g => Received g ∧ NoIssue g := by
  have htake : ∀ g : List (Event (service fs)),
      ⟨n, .removeHandle k ino fh, some arc⟩ ∈ g →
      NoIssue g → Tracks (S := service fs) (May req) n g (sect (.take k arc))
        fun _ g' => Received g' ∧ NoIssue g' := by
    intro g hmem hng
    refine ⟨⟨ino, fh, caller, hreq, n, hmem⟩, ?_⟩
    intro h
    refine ⟨⟨_, List.mem_append_right _ (List.mem_singleton_self _), k, arc.addr, h, ?_⟩,
      hng.append (noIssue_of_forall rfl)⟩
    exact .take n arc rfl
  refine Tracks.step (by trivial) ?_
  intro drained
  have hmem := List.mem_append_left [⟨n, .close k arc, drained⟩] hfound
  have hn' : NoIssue (past ++ [⟨n, .close k arc, drained⟩]) := hn.append (noIssue_of_forall rfl)
  refine Prog.wp_ite (fun _ => htake _ hmem hn') fun _ => ?_
  refine Tracks.step (by trivial) ?_
  intro r
  exact htake _ (List.mem_append_left _ hmem) (hn'.append (noIssue_of_forall rfl))

/-- `release` and `releasedir`. -/
lemma tracks_release {k : HandleKind} {ino fh : ℕ} {caller : Caller} :
    Tracks (S := service fs) (May (.release k ino fh caller)) n [] (release fs k ino fh caller)
      fun a g => NoIssue g ∧
      (Received g ∨ (∃ errno, a = fail errno ∧ Refused n k ino fh errno g) ∨
        a = fail .ENOENT) := by
  refine Tracks.step (by trivial) ?_
  rintro (_ | arc)
  · exact ⟨Refused.noIssue (k := k) .release, Or.inr (Or.inl ⟨_, rfl, .release⟩)⟩
  refine Tracks.bind (Q := fun a g => NoIssue g ∧ (Received g ∨ a = fail .ENOENT)) ?_ ?_
  · refine tracks_withNode ⟨noIssue_of_forall rfl, Or.inr rfl⟩ ?_
    intro ref
    refine Tracks.step (by trivial) ?_
    intro r
    refine Tracks.bind (tracks_closeAndTake rfl (by simp) (noIssue_of_forall rfl)) ?_
    rintro h g ⟨hrec, hno⟩
    refine (tracks_plain (performs_call _) (fun _ => hrec) hno).mono ?_
    rintro a g' ⟨hrec', hno'⟩
    exact ⟨hno'.append (noIssue_of_forall rfl), Or.inl (hrec' rfl).append⟩
  · rintro a g ⟨hno, hcase⟩
    refine Tracks.step (by trivial) ?_
    intro r
    refine Tracks.ret ⟨hno.append (noIssue_of_forall rfl), ?_⟩
    rcases hcase with hrec | rfl
    · exact Or.inl hrec.append
    · exact Or.inr (Or.inr rfl)

/-- Every handle number that a past issues satisfies `P`. -/
def Issues (P : ℕ → ℕ → Prop) (past : List (Event (service fs))) : Prop :=
  ∀ m k ino h fh, ⟨m, .addHandle k ino h, fh⟩ ∈ past → P ino fh

lemma NoIssue.issues {P : ℕ → ℕ → Prop} (h : NoIssue past) : Issues P past := by
  intro m k ino h' fh hm
  have hnone := h _ hm
  cases hnone

lemma Issues.append {P : ℕ → ℕ → Prop} {more : List (Event (service fs))}
    (h : Issues P past) (h' : NoIssue more) : Issues P (past ++ more) := by
  intro m k ino h₀ fh hm
  rcases List.mem_append.mp hm with hm | hm
  · exact h m k ino h₀ fh hm
  · exact h'.issues m k ino h₀ fh hm

/-- The first handle that a past issues. -/
lemma NoIssue.issue {P : ℕ → ℕ → Prop} (h : NoIssue past) {k : HandleKind} {ino fh : ℕ}
    {payload : fs.Payload k} (hP : P ino fh) :
    Issues P (past ++ [⟨n, .addHandle k ino payload, fh⟩]) := by
  intro m k' ino' h' fh' hm
  rcases List.mem_append.mp hm with hm | hm
  · exact h.issues m k' ino' h' fh' hm
  · cases List.mem_singleton.mp hm
    exact hP

/-- `open` and `opendir` issue the number they return. -/
lemma tracks_openNode {k : HandleKind} {ino : ℕ} {flags : ℤ} {caller : Caller} :
    Tracks (S := service fs) (May (.openNode k ino flags caller)) n []
      (openNode fs k ino flags caller)
      fun a g => Issues (fun _ fh => ∃ hints, a = .ok (fh, hints)) g := by
  refine tracks_withNode (noIssue_of_forall rfl).issues ?_
  intro ref
  refine Tracks.bind (tracks_plain (performs_call _) (fun h => nomatch h)
    (noIssue_of_forall rfl)) ?_
  rintro (e | opened) g ⟨_, hno⟩
  · exact (hno.append (noIssue_of_forall rfl)).issues
  refine Tracks.step (by trivial) ?_
  intro live
  have hno' : NoIssue (g ++ [⟨n, .addOpen ino, live⟩]) := hno.append (noIssue_of_forall rfl)
  refine Prog.wp_ite (fun _ => ?_) fun _ => ?_
  · refine Tracks.step ⟨rfl, rfl⟩ ?_
    intro fh
    exact (hno'.issue ⟨opened.hints, rfl⟩).append (noIssue_of_forall rfl)
  · refine Tracks.step (by trivial) ?_
    intro r
    exact ((hno'.append (noIssue_of_forall rfl)).append (noIssue_of_forall rfl)).issues

/-- `entry_for` answers with the inode it was called for. -/
lemma returns_entryFor (id : NodeId) (caller : Caller) :
    (entryFor fs id caller).Returns fun a => ∀ e, a = .ok e → e.reply.ino = id := by
  refine Prog.returns_bind fun den => Prog.returns_bind ?_
  rintro (_ | node)
  · exact fun e he => nomatch he
  refine Prog.returns_bind ?_
  rintro (err | attr)
  · exact Prog.returns_bind fun _ e he => nomatch he
  refine Prog.returns_bind ?_
  rintro (_ | generation)
  · exact Prog.returns_bind fun _ e he => nomatch he
  · refine Prog.returns_bind fun _ e he => ?_
    cases he
    rfl

/-- `create` issues the number it returns, for the inode it returns. -/
lemma tracks_create {parent : ℕ} {name : Name} {mode umask : ℕ} {flags : ℤ}
    {caller : Caller} :
    Tracks (S := service fs) (May (.create parent name mode umask flags caller)) n []
      (create fs parent name mode umask flags caller)
      fun a g => Issues (fun ino fh => ∃ e hints, a = .ok (e, fh, hints) ∧
        e.reply.ino = ino) g := by
  refine Tracks.bind (tracks_plain (performs_call _) (fun h => nomatch h)
    (noIssue_of_forall rfl)) ?_
  rintro (err | ⟨id, opened⟩) g ⟨_, hno⟩
  · exact hno.issues
  have hreq : (Request.create parent name mode umask flags caller).handle.isSome → Received g :=
    fun h => nomatch h
  refine Tracks.bind ((tracks_plain (performs_entryFor id caller) hreq hno).returns
    (returns_entryFor id caller)) ?_
  rintro (err | entry) g₁ ⟨hino, _, hno₁⟩
  · refine Tracks.step (by trivial) ?_
    intro r
    exact (hno₁.append (noIssue_of_forall rfl)).issues
  refine Tracks.step (by trivial) ?_
  intro live
  have hno₂ : NoIssue (g₁ ++ [⟨n, .addOpen id, live⟩]) :=
    hno₁.append (noIssue_of_forall rfl)
  refine Prog.wp_ite (fun _ => ?_) fun _ => ?_
  · refine Tracks.step rfl ?_
    intro fh
    exact hno₂.issue ⟨entry, opened.hints, rfl, hino entry rfl⟩
  · refine Tracks.step (by trivial) fun _ => Tracks.step (by trivial) ?_
    intro r
    exact ((hno₂.append (noIssue_of_forall rfl)).append (noIssue_of_forall rfl)).issues

/-- Every entry point does what its request may do. -/
lemma tracks_serve (n : ℕ) (req : Request) :
    Tracks (S := service fs) (May req) n [] (serve fs req) (Finished n req) := by
  have hplain : ∀ {req : Request} {p : RtProg fs.toFsSig (Fallible Reply)}, req.handle = none →
      p.Performs RtInstr.Plain → Tracks (S := service fs) (May req) n [] p (Finished n req) := by
    intro req p hreq hp
    refine (tracks_plain hp ?_ (noIssue_of_forall rfl)).mono ?_
    · intro h
      rw [hreq] at h
      cases h
    · rintro a g ⟨_, hno⟩
      refine hno.finished ?_
      intro k ino fh hh
      rw [hreq] at hh
      cases hh
  have hrouted : ∀ {req : Request} {k : HandleKind} {ino fh : ℕ} {α : Type}
      {p : RtProg fs.toFsSig (Fallible α)} {f : α → Reply}, req.handle = some (k, ino, fh) →
      Tracks (S := service fs) (May req) n [] p (Routed n k ino fh) →
      Tracks (S := service fs) (May req) n [] (p >>= fun r => .ret (r.map f)) (Finished n req) := by
    intro req k ino fh α p f hreq hp
    exact hp.bind fun a g hg => hg.finished hreq f
  cases req with
  | populate => exact hplain rfl ((performs_call _).bind fun _ => Prog.performs_ret _)
  | forget ino nlookup =>
    exact hplain rfl ((performs_sect (by trivial)).bind fun _ => Prog.performs_ret _)
  | statfs caller => exact hplain rfl ((performs_call _).bind fun _ => Prog.performs_ret _)
  | treeOp op caller => exact hplain rfl ((performs_call _).bind fun _ => Prog.performs_ret _)
  | nodeOp op ino caller =>
    exact hplain rfl ((performs_withNode fun _ => performs_call _).bind fun _ =>
      Prog.performs_ret _)
  | lookup parent name caller =>
    refine hplain rfl (Prog.Performs.bind ?_ fun _ => Prog.performs_ret _)
    refine (performs_call _).bind fun found => performs_onOk ?_
    rintro (_ | id)
    · exact Prog.performs_ret _
    · exact (performs_entryFor id caller).bind fun _ => Prog.performs_ret _
  | makeOp op caller =>
    refine hplain rfl (Prog.Performs.bind ?_ fun _ => Prog.performs_ret _)
    exact (performs_call _).bind fun _ => performs_onOk fun id => performs_entryFor id caller
  | getattr ino fh caller =>
    cases fh with
    | none =>
      exact hplain rfl ((performs_withNode fun _ => performs_call _).bind fun _ =>
        Prog.performs_ret _)
    | some fh => exact hrouted rfl (tracks_handled rfl fun _ _ => performs_call _)
  | setattr ino fh set caller =>
    cases fh with
    | none =>
      exact hplain rfl ((performs_withNode fun _ => performs_call _).bind fun _ =>
        Prog.performs_ret _)
    | some fh => exact hrouted rfl (tracks_handled rfl fun _ _ => performs_call _)
  | fileOp op ino fh caller => exact hrouted rfl (tracks_handled rfl fun _ _ => performs_call _)
  | fsyncdir ino fh datasync caller =>
    exact hrouted rfl (tracks_handled rfl fun _ _ => performs_call _)
  | readdir ino fh offset sink caller =>
    refine hrouted rfl (tracks_listed rfl (fun _ => rfl) (fun _ _ => rfl) ?_)
    intro node parent h
    refine (Prog.performs_handle ?_ _ _).bind fun _ => Prog.performs_ret _
    rintro (i | ⟨name, id, kind, nextOffset⟩) offered
    · exact (performs_sect (by trivial)).bind fun _ => Prog.performs_ret _
    · exact Prog.performs_ret _
  | readdirplus ino fh offset sink caller =>
    refine hrouted rfl (tracks_listed rfl (fun _ => rfl) (fun _ _ => rfl) ?_)
    intro node parent h
    refine (Prog.performs_handle ?_ _ _).bind ?_
    · rintro (i | ⟨name, id, attr, nextOffset⟩) acc
      · exact (performs_sect (by trivial)).bind fun _ => Prog.performs_ret _
      · exact performs_add sink acc name id attr nextOffset
    · rintro ⟨(e | _) | _, acc⟩
      · exact (performs_forgetAll _).bind fun _ => Prog.performs_ret _
      · exact (performs_sect (by trivial)).bind fun _ => Prog.performs_ret _
      · exact Prog.performs_ret _
  | release k ino fh caller =>
    refine Tracks.bind tracks_release ?_
    rintro a g ⟨hno, hcase⟩
    refine hno.finished ?_
    intro k' ino' fh' hreq
    cases hreq
    rcases hcase with hrec | ⟨errno, rfl, href⟩ | rfl
    · exact Or.inl hrec
    · exact Or.inr (Or.inl ⟨errno, rfl, href⟩)
    · exact Or.inr (Or.inr ⟨⟨caller, rfl⟩, rfl⟩)
  | openNode k ino flags caller =>
    refine Tracks.bind tracks_openNode ?_
    intro a g hiss
    refine ⟨fun _ _ _ h => (nomatch h), ?_⟩
    intro m k' ino' h fh hm
    obtain ⟨hints, rfl⟩ := hiss m k' ino' h fh hm
    exact rfl
  | create parent name mode umask flags caller =>
    refine Tracks.bind tracks_create ?_
    intro a g hiss
    refine ⟨fun _ _ _ h => (nomatch h), ?_⟩
    intro m k' ino' h fh hm
    obtain ⟨e, hints, rfl, hino⟩ := hiss m k' ino' h fh hm
    exact ⟨hino, rfl⟩

end Tracks

/-! ## The registry -/

/-- Only `close_and_take` moves a payload out. -/
lemma released_exec {s s' : RtState fs.toFsSig} {n : ℕ} {i : RtInstr fs.toFsSig}
    {ch : Option fs.Choice} {r : i.Resp} (hi : ∀ k arc, i ≠ .take k arc)
    (he : (service fs).exec n i ch s = some (r, s')) : s'.hist.released = s.hist.released := by
  cases i with
  | take k arc => exact absurd rfl (hi k arc)
  | fs i =>
    cases i with
    | get | insert | addLink =>
      obtain ⟨_, _, heq⟩ := Option.map_eq_some_iff.mp he
      obtain ⟨_, rfl⟩ := Prod.mk.inj heq
      rfl
    | contains | reparent | removeLink =>
      obtain ⟨_, rfl⟩ := Prod.mk.inj (Option.some.inj he)
      rfl
    | dropRef ref =>
      change (if ref.key ∈ s.hist.fsRefs then some ((), _) else none) = some (r, s') at he
      split at he
      · obtain ⟨_, rfl⟩ := Prod.mk.inj (Option.some.inj he)
        rfl
      · cases he
    | own i =>
      cases ch with
      | none => cases he
      | some ch =>
        obtain ⟨_, _, heq⟩ := Option.map_eq_some_iff.mp he
        obtain ⟨_, rfl⟩ := Prod.mk.inj heq
        rfl
  | grant | retainLookup =>
    obtain ⟨⟨o, t'⟩, _, heq⟩ := Option.map_eq_some_iff.mp he
    obtain ⟨_, rfl⟩ := Prod.mk.inj heq
    dsimp only
    split <;> rfl
  | dropNode | denote | plusEntry | forget | leak | removeOpen | parentOf | discard |
      removeHandle =>
    obtain ⟨_, rfl⟩ := Prod.mk.inj (Option.some.inj he)
    rfl
  | node | lease | addOpen | deref | addHandle | findHandle | acquire | dropLease | dropArc |
      close | drain =>
    obtain ⟨_, _, heq⟩ := Option.map_eq_some_iff.mp he
    obtain ⟨_, rfl⟩ := Prod.mk.inj heq
    rfl

/-- Two elements that a partial map sends to one value are equal when the values are distinct. -/
private lemma eq_of_nodup_filterMap {A B : Type} {f : A → Option B} {l : List A}
    (h : (l.filterMap f).Nodup) {x y : A} {b : B} (hx : x ∈ l) (hy : y ∈ l) (hfx : f x = some b)
    (hfy : f y = some b) : x = y := by
  induction l with
  | nil => cases hx
  | cons z l ih =>
    have hmem : ∀ w ∈ l, f w = some b → b ∈ l.filterMap f :=
      fun w hw hfw => List.mem_filterMap.mpr ⟨w, hw, hfw⟩
    have hnew : f z = some b → b ∉ l.filterMap f := by
      intro hz
      rw [List.filterMap_cons_some hz] at h
      exact (List.nodup_cons.mp h).1
    rcases List.mem_cons.mp hx with rfl | hxl
    · rcases List.mem_cons.mp hy with rfl | hyl
      · rfl
      · exact absurd (hmem y hyl hfy) (hnew hfx)
    · rcases List.mem_cons.mp hy with rfl | hyl
      · exact absurd (hmem x hxl hfx) (hnew hfy)
      · exact ih (h.sublist ((List.sublist_cons_self z l).filterMap f)) hxl hyl

/-- A handle of the kind was opened on the inode with the payload and got the number. -/
def Opening (es : List (Event (service fs))) (k : HandleKind) (ino fh : ℕ) (h : fs.Payload k) :
    Prop :=
  ∃ n, ⟨n, .addHandle k ino h, fh⟩ ∈ es

/-- What the handle table and the trace say about each other. -/
structure Registry (s : RtState fs.toFsSig) (es : List (Event (service fs))) : Prop where
  /-- Issued numbers are below the counter. -/
  below : ∀ fh ∈ es.filterMap issued, fh < s.handles.nextFh
  /-- No number is issued twice. -/
  nodup : (es.filterMap issued).Nodup
  /-- A registered number was issued for its inode. -/
  table : ∀ k fh arc, (s.handles.table k).lookup fh = some arc →
    arc.addr = fh ∧ ∃ h, Opening es k arc.node fh h
  /-- A payload in place was registered and not moved out. -/
  cells : ∀ k a h, s.handles.deref k a = some h →
    (∃ ino, Opening es k ino a h) ∧ ∀ e ∈ es, ¬Takes k a e
  /-- A handle that was registered has a record. -/
  stored : ∀ k ino fh h, Opening es k ino fh h → ((s.handles.cells k).lookup fh).isSome = true
  /-- A record that was looked up was issued for its inode. -/
  found : ∀ n k fh arc, ⟨n, .findHandle k fh, some arc⟩ ∈ es →
    arc.addr = fh ∧ ∃ h, Opening es k arc.node fh h
  /-- A record that was removed was issued for the inode. -/
  removed : ∀ n k ino fh arc, ⟨n, .removeHandle k ino fh, some arc⟩ ∈ es →
    arc.addr = fh ∧ ∃ h, Opening es k ino fh h
  /-- A payload that was received had been registered and not been moved out. -/
  received : ∀ es₁ e es₂ k a h, es = es₁ ++ e :: es₂ → Receives k a h e →
    (∃ ino, Opening es₁ k ino a h) ∧ ∀ e' ∈ es₁, ¬Takes k a e'
  /-- The released handles are those whose payload was moved out. -/
  released : ∀ n k a, (n, k, a) ∈ s.hist.released →
    ∃ arc h, arc.addr = a ∧ ⟨n, .take k arc, h⟩ ∈ es

lemma Opening.append {es : List (Event (service fs))} {k : HandleKind} {ino fh : ℕ}
    {h : fs.Payload k} (ho : Opening es k ino fh h) (more : List (Event (service fs))) :
    Opening (es ++ more) k ino fh h := by
  obtain ⟨n, hn⟩ := ho
  exact ⟨n, List.mem_append_left _ hn⟩

lemma Opening.mem_issued {es : List (Event (service fs))} {k : HandleKind} {ino fh : ℕ}
    {h : fs.Payload k} (ho : Opening es k ino fh h) : fh ∈ es.filterMap issued := by
  obtain ⟨n, hn⟩ := ho
  exact List.mem_filterMap.mpr ⟨_, hn, rfl⟩

namespace Registry

variable {s s' : RtState fs.toFsSig} {es : List (Event (service fs))} {k : HandleKind}
    {ino fh : ℕ}

/-- A payload that was moved out had been registered under a number below the counter. -/
lemma lt_of_takes (hr : Registry s es) {a : ℕ} {e : Event (service fs)} (he : e ∈ es)
    (ht : Takes k a e) : a < s.handles.nextFh := by
  obtain ⟨n, arc, h, ha, rfl⟩ := ht
  obtain ⟨es₁, es₂, rfl⟩ := List.append_of_mem he
  obtain ⟨⟨ino, ho⟩, _⟩ := hr.received es₁ _ es₂ k a h rfl (.take n arc ha)
  exact hr.below a (ho.append _).mem_issued

/-- One more event, given what it says about the states before and after it. -/
lemma extend (hr : Registry s es) {e : Event (service fs)}
    (hnext : s.handles.nextFh ≤ s'.handles.nextFh)
    (hissued : ∀ fh, issued e = some fh → s.handles.nextFh ≤ fh ∧ fh < s'.handles.nextFh)
    (htable : ∀ k fh arc, (s'.handles.table k).lookup fh = some arc →
      (s.handles.table k).lookup fh = some arc ∨
        arc.addr = fh ∧ ∃ n h, e = ⟨n, .addHandle k arc.node h, fh⟩)
    (hcells : ∀ k a h, s'.handles.deref k a = some h →
      (s.handles.deref k a = some h ∧ ¬Takes k a e) ∨
      ∃ n ino, e = ⟨n, .addHandle k ino h, a⟩)
    (hrecords : ∀ k a, ((s.handles.cells k).lookup a).isSome = true →
      ((s'.handles.cells k).lookup a).isSome = true)
    (hstored : ∀ n k ino fh h, e = ⟨n, .addHandle k ino h, fh⟩ →
      ((s'.handles.cells k).lookup fh).isSome = true)
    (hfound : ∀ n k fh arc, e = ⟨n, .findHandle k fh, some arc⟩ →
      (s.handles.table k).lookup fh = some arc)
    (hremoved : ∀ n k ino fh arc, e = ⟨n, .removeHandle k ino fh, some arc⟩ →
      arc.node = ino ∧ (s.handles.table k).lookup fh = some arc)
    (hreceived : ∀ k a h, Receives k a h e → s.handles.deref k a = some h)
    (hreleased : ∀ n k a, (n, k, a) ∈ s'.hist.released → (n, k, a) ∈ s.hist.released ∨
      ∃ arc h, arc.addr = a ∧ e = ⟨n, .take k arc, h⟩) :
    Registry s' (es ++ [e]) := by
  have hmem : ∀ e', e' ∈ es ++ [e] → e' ∈ es ∨ e' = e := by
    intro e' he'
    rcases List.mem_append.mp he' with he' | he'
    · exact Or.inl he'
    · exact Or.inr (List.mem_singleton.mp he')
  have hlast : e ∈ es ++ [e] := List.mem_append_right _ (List.mem_singleton_self _)
  have hopen : ∀ k ino fh, (∃ h, Opening es k ino fh h) →
      ∃ h, Opening (es ++ [e]) k ino fh h := by
    rintro k ino fh ⟨h, ho⟩
    exact ⟨h, ho.append _⟩
  have hnew : ∀ fh, fh ∈ [e].filterMap issued → issued e = some fh := by
    intro fh hm
    obtain ⟨e', he', hiss⟩ := List.mem_filterMap.mp hm
    rwa [List.mem_singleton.mp he'] at hiss
  refine ⟨?_, ?_, ?_, ?_, ?_, ?_, ?_, ?_, ?_⟩
  · intro fh hm
    rw [List.filterMap_append] at hm
    rcases List.mem_append.mp hm with hm | hm
    · exact lt_of_lt_of_le (hr.below fh hm) hnext
    · exact (hissued fh (hnew fh hm)).2
  · rw [List.filterMap_append]
    refine List.nodup_append.mpr ⟨hr.nodup, ?_, ?_⟩
    · cases hi : issued e with
      | none => simp [hi]
      | some fh => simp [hi]
    · intro a ha b hb heq
      have hlt := hr.below a ha
      have hle := (hissued b (hnew b hb)).1
      omega
  · intro k fh arc ht
    rcases htable k fh arc ht with ht | ⟨haddr, n, h, heq⟩
    · obtain ⟨haddr, ho⟩ := hr.table k fh arc ht
      exact ⟨haddr, hopen _ _ _ ho⟩
    · exact ⟨haddr, h, n, heq ▸ hlast⟩
  · intro k a h hd
    rcases hcells k a h hd with ⟨hd', hnot⟩ | ⟨n, ino, heq⟩
    · obtain ⟨⟨ino, ho⟩, hno⟩ := hr.cells k a h hd'
      refine ⟨⟨ino, ho.append _⟩, ?_⟩
      intro e' he'
      rcases hmem e' he' with he' | rfl
      · exact hno e' he'
      · exact hnot
    · refine ⟨⟨ino, n, heq ▸ hlast⟩, ?_⟩
      -- the number is new, so nothing was moved out from under it
      intro e' he' ht
      rcases hmem e' he' with he' | rfl
      · have hlt := hr.lt_of_takes he' ht
        have hle := (hissued a (by rw [heq]; rfl)).1
        omega
      · obtain ⟨m, arc, h', _, heq'⟩ := ht
        rw [heq] at heq'
        cases heq'
  · rintro k ino fh h ⟨n, hm⟩
    rcases hmem _ hm with hm | heq
    · exact hrecords k fh (hr.stored k ino fh h ⟨n, hm⟩)
    · exact hstored n k ino fh h heq.symm
  · intro n k fh arc hm
    rcases hmem _ hm with hm | heq
    · obtain ⟨haddr, ho⟩ := hr.found n k fh arc hm
      exact ⟨haddr, hopen _ _ _ ho⟩
    · obtain ⟨haddr, ho⟩ := hr.table k fh arc (hfound n k fh arc heq.symm)
      exact ⟨haddr, hopen _ _ _ ho⟩
  · intro n k ino fh arc hm
    rcases hmem _ hm with hm | heq
    · obtain ⟨haddr, ho⟩ := hr.removed n k ino fh arc hm
      exact ⟨haddr, hopen _ _ _ ho⟩
    · obtain ⟨rfl, ht⟩ := hremoved n k ino fh arc heq.symm
      obtain ⟨haddr, ho⟩ := hr.table k fh arc ht
      exact ⟨haddr, hopen _ _ _ ho⟩
  · intro es₁ e' es₂ k a h hes hrec
    rcases split_snoc hes with ⟨rfl, rfl, _⟩ | ⟨es₃, hes, _⟩
    · exact hr.cells k a h (hreceived k a h hrec)
    · exact hr.received es₁ e' es₃ k a h hes hrec
  · intro n k a hm
    rcases hreleased n k a hm with hm | ⟨arc, h, ha, rfl⟩
    · obtain ⟨arc, h, ha, hm⟩ := hr.released n k a hm
      exact ⟨arc, h, ha, List.mem_append_left _ hm⟩
    · exact ⟨arc, h, ha, hlast⟩

/-- Registering a handle. -/
lemma add (hr : Registry s es) {n : ℕ} {node : NodeId} {payload : fs.Payload k}
    (hadd : s.handles.add k node payload = some (fh, s'.handles))
    (hrel : s'.hist.released = s.hist.released) :
    Registry s' (es ++ [⟨n, .addHandle k node payload, fh⟩]) := by
  unfold Handles.add at hadd
  split at hadd
  swap
  · cases hadd
  obtain ⟨rfl, hhs⟩ := Prod.mk.inj (Option.some.inj hadd)
  have hnext : s'.handles.nextFh = s.handles.nextFh + 1 := by rw [← hhs]
  refine hr.extend (by omega) ?_ ?_ ?_ ?_ ?_ (fun _ _ _ _ h => nomatch h)
    (fun _ _ _ _ _ h => nomatch h) (fun _ _ _ h => nomatch h) ?_
  · intro fh hfh
    obtain rfl : s.handles.nextFh = fh := Option.some.inj hfh
    omega
  · intro k' fh arc ht
    rw [← hhs] at ht
    change (Function.update s.handles.table k _ k').lookup fh = some arc at ht
    by_cases hk : k' = k
    · subst hk
      rw [Function.update_self, BTreeMap.lookup_insert_ite] at ht
      split at ht
      · next hfh =>
        obtain rfl := Option.some.inj ht
        exact Or.inr ⟨hfh.symm, n, payload, by rw [hfh]⟩
      · exact Or.inl ht
    · rw [Function.update_of_ne hk] at ht
      exact Or.inl ht
  · intro k' a h hd
    rw [← hhs] at hd
    change ((s.handles.setCell _ _ _).cells _).lookup _ >>= _ = _ at hd
    by_cases heq : (k', a) = (k, s.handles.nextFh)
    · obtain ⟨rfl, rfl⟩ := Prod.mk.inj heq
      rw [s.handles.lookup_setCell] at hd
      obtain rfl : payload = h := Option.some.inj hd
      exact Or.inr ⟨n, node, rfl⟩
    · rw [s.handles.lookup_setCell_ne _ heq] at hd
      refine Or.inl ⟨hd, ?_⟩
      rintro ⟨m, arc, h', _, heq'⟩
      cases heq'
  · intro k' a hsome
    rw [← hhs]
    change (((s.handles.setCell _ _ _).cells _).lookup _).isSome = true
    by_cases heq : (k', a) = (k, s.handles.nextFh)
    · obtain ⟨rfl, rfl⟩ := Prod.mk.inj heq
      rw [s.handles.lookup_setCell]
      rfl
    · rwa [s.handles.lookup_setCell_ne _ heq]
  · intro m k' ino' fh' h heq
    cases heq
    rw [← hhs]
    change (((s.handles.setCell _ _ _).cells _).lookup _).isSome = true
    rw [s.handles.lookup_setCell]
    rfl
  · intro m k' a hm
    rw [hrel] at hm
    exact Or.inl hm

/-- Removing a handle from the table. -/
lemma remove (hr : Registry s es) {n : ℕ} {r : Option HandleArc}
    (hrem : s.handles.remove k ino fh = (r, s'.handles))
    (hrel : s'.hist.released = s.hist.released) :
    Registry s' (es ++ [⟨n, .removeHandle k ino fh, r⟩]) := by
  have hspec : s'.handles.nextFh = s.handles.nextFh ∧ s'.handles.cells = s.handles.cells ∧
      (∀ k' fh' arc, (s'.handles.table k').lookup fh' = some arc →
        (s.handles.table k').lookup fh' = some arc) ∧
      ∀ arc, r = some arc → arc.node = ino ∧ (s.handles.table k).lookup fh = some arc := by
    unfold Handles.remove at hrem
    split at hrem
    · obtain ⟨rfl, hhs⟩ := Prod.mk.inj hrem
      rw [← hhs]
      exact ⟨rfl, rfl, fun _ _ _ h => h, fun _ h => nomatch h⟩
    · next arc harc =>
      split at hrem
      · next hnode =>
        obtain ⟨rfl, hhs⟩ := Prod.mk.inj hrem
        rw [← hhs]
        refine ⟨rfl, rfl, ?_, ?_⟩
        · intro k' fh' arc' ht
          change (Function.update s.handles.table k _ k').lookup fh' = some arc' at ht
          by_cases hk : k' = k
          · subst hk
            rw [Function.update_self, BTreeMap.lookup_erase_ite] at ht
            split at ht
            · cases ht
            · exact ht
          · rwa [Function.update_of_ne hk] at ht
        · intro arc' harc'
          obtain rfl := Option.some.inj harc'
          exact ⟨hnode, harc⟩
      · obtain ⟨rfl, hhs⟩ := Prod.mk.inj hrem
        rw [← hhs]
        exact ⟨rfl, rfl, fun _ _ _ h => h, fun _ h => nomatch h⟩
  obtain ⟨hnext, hcells, htable, hsome⟩ := hspec
  refine hr.extend hnext.ge (fun _ h => nomatch h)
    (fun k' fh' arc ht => Or.inl (htable k' fh' arc ht))
    ?_ ?_ (fun _ _ _ _ _ h => nomatch h) (fun _ _ _ _ h => nomatch h) ?_
    (fun _ _ _ h => nomatch h) ?_
  · intro k' a h hd
    unfold Handles.deref at hd ⊢
    rw [hcells] at hd
    refine Or.inl ⟨hd, ?_⟩
    rintro ⟨m, arc, h', _, heq⟩
    cases heq
  · intro k' a hstored
    rw [hcells]
    exact hstored
  · intro m k' ino' fh' arc heq
    cases heq
    exact hsome arc rfl
  · intro m k' a hm
    rw [hrel] at hm
    exact Or.inl hm

/-- Moving a payload out of its record. -/
lemma take (hr : Registry s es) {n : ℕ} {arc : HandleArc} {payload : fs.Payload k}
    (htake : s.handles.take k arc.addr = some (payload, s'.handles))
    (hrel : s'.hist.released = (n, k, arc.addr) ::ₘ s.hist.released) :
    Registry s' (es ++ [⟨n, .take k arc, payload⟩]) := by
  unfold Handles.take at htake
  split at htake
  swap
  · cases htake
  next cell hcell =>
  split at htake
  swap
  · cases htake
  next h hpay =>
  obtain ⟨rfl, hhs⟩ := Prod.mk.inj (Option.some.inj htake)
  have hderef : s.handles.deref k arc.addr = some h := by
    unfold Handles.deref
    rw [hcell]
    exact hpay
  refine hr.extend ?_ (fun _ h => nomatch h) ?_ ?_ ?_ (fun _ _ _ _ _ h => nomatch h)
    (fun _ _ _ _ h => nomatch h) (fun _ _ _ _ _ h => nomatch h) ?_ ?_
  · rw [← hhs]
    exact le_rfl
  · intro k' fh' arc' ht
    rw [← hhs] at ht
    exact Or.inl ht
  · intro k' a h' hd
    rw [← hhs] at hd
    change ((s.handles.setCell _ _ _).cells _).lookup _ >>= _ = _ at hd
    by_cases heq : (k', a) = (k, arc.addr)
    · obtain ⟨rfl, rfl⟩ := Prod.mk.inj heq
      rw [s.handles.lookup_setCell] at hd
      cases hd
    · rw [s.handles.lookup_setCell_ne _ heq] at hd
      refine Or.inl ⟨hd, ?_⟩
      rintro ⟨m, arc', h'', ha, heq'⟩
      cases heq'
      exact heq (by rw [ha])
  · intro k' a hsome
    have hsame : Handles.SameTable s.handles s'.handles := by
      rw [← hhs]
      exact .setCell hcell fun _ h => nomatch h
    rwa [hsame.records]
  · intro k' a h' hrec
    cases hrec with
    | take _ _ ha => rw [← ha, hderef]
  · intro m k' a hm
    rw [hrel] at hm
    rcases Multiset.mem_cons.mp hm with heq | hm
    · cases heq
      exact Or.inr ⟨arc, h, rfl, rfl⟩
    · exact Or.inl hm

/-- Sections that neither register nor remove a handle nor move a payload out. -/
lemma same (hr : Registry s es) (hsame : Handles.SameTable s.handles s'.handles)
    (hrel : s'.hist.released = s.hist.released) {e : Event (service fs)} (hissued : issued e = none)
    (htakes : ∀ k a, ¬Takes k a e)
    (hfound : ∀ n k fh arc, e = ⟨n, .findHandle k fh, some arc⟩ →
      (s.handles.table k).lookup fh = some arc)
    (hremoved : ∀ n k ino fh arc, e ≠ ⟨n, .removeHandle k ino fh, some arc⟩)
    (hreceived : ∀ k a h, Receives k a h e → s.handles.deref k a = some h) :
    Registry s' (es ++ [e]) := by
  refine hr.extend hsame.nextFh.ge ?_ ?_ ?_ ?_ ?_ hfound
    (fun n k ino fh arc h => absurd h (hremoved n k ino fh arc)) hreceived ?_
  · intro fh hfh
    rw [hissued] at hfh
    cases hfh
  · intro k' fh' arc ht
    rw [hsame.table] at ht
    exact Or.inl ht
  · intro k' a h hd
    exact Or.inl ⟨hsame.payloads k' a h hd, htakes k' a⟩
  · intro k' a hsome
    rwa [hsame.records]
  · rintro n k' ino' fh' h rfl
    cases hissued
  · intro n k' a hm
    rw [hrel] at hm
    exact Or.inl hm

/-- Every section keeps the registry. -/
lemma exec (hr : Registry s es) {n : ℕ} {i : RtInstr fs.toFsSig} {ch : Option fs.Choice}
    {r : i.Resp} (he : (service fs).exec n i ch s = some (r, s')) :
    Registry s' (es ++ [⟨n, i, r⟩]) := by
  have hsame := fun hadd hremove => sameTable_exec (i := i) hadd hremove he
  have hrel := fun htake => released_exec (i := i) htake he
  cases i with
  | addHandle k node payload =>
    obtain ⟨⟨fh, hs'⟩, hadd, heq⟩ := Option.map_eq_some_iff.mp he
    obtain ⟨rfl, rfl⟩ := Prod.mk.inj heq
    exact hr.add hadd rfl
  | removeHandle k ino fh =>
    obtain ⟨rfl, rfl⟩ := Prod.mk.inj (Option.some.inj he)
    exact hr.remove rfl rfl
  | take k arc =>
    obtain ⟨⟨payload, hs'⟩, htake, heq⟩ := Option.map_eq_some_iff.mp he
    obtain ⟨rfl, rfl⟩ := Prod.mk.inj heq
    exact hr.take htake rfl
  | findHandle k fh =>
    refine hr.same (hsame (fun _ _ _ h => nomatch h) (fun _ _ _ h => nomatch h))
      (hrel fun _ _ h => nomatch h) rfl ?_ ?_ (fun _ _ _ _ _ h => nomatch h)
      (fun _ _ _ h => nomatch h)
    · rintro k' a ⟨m, arc, h, _, heq⟩
      cases heq
    · intro m k' fh' arc heq
      cases heq
      obtain ⟨⟨o, hs'⟩, hfind, heq⟩ := Option.map_eq_some_iff.mp he
      obtain ⟨rfl, rfl⟩ := Prod.mk.inj heq
      unfold Handles.find at hfind
      split at hfind
      · cases (Prod.mk.inj (Option.some.inj hfind)).1
      · next arc' harc =>
        split at hfind
        · rw [harc]
          exact (Prod.mk.inj (Option.some.inj hfind)).1
        · cases hfind
  | deref k arc =>
    refine hr.same (hsame (fun _ _ _ h => nomatch h) (fun _ _ _ h => nomatch h))
      (hrel fun _ _ h => nomatch h) rfl ?_ (fun _ _ _ _ h => nomatch h)
      (fun _ _ _ _ _ h => nomatch h) ?_
    · rintro k' a ⟨m, arc', h, _, heq⟩
      cases heq
    · intro k' a h hrec
      obtain ⟨h', hd, heq⟩ := Option.map_eq_some_iff.mp he
      obtain ⟨rfl, rfl⟩ := Prod.mk.inj heq
      cases hrec with
      | deref _ _ ha => exact ha ▸ hd
  | _ =>
    refine hr.same (hsame (fun _ _ _ h => nomatch h) (fun _ _ _ h => nomatch h))
      (hrel fun _ _ h => nomatch h) rfl ?_ (fun _ _ _ _ h => nomatch h)
      (fun _ _ _ _ _ h => nomatch h) (fun _ _ _ h => nomatch h)
    rintro k' a ⟨m, arc', h, _, heq⟩
    cases heq

/-- The registry of the trace of a run. -/
lemma of_traced {allow : Config (service fs) → Action (service fs) → Prop}
    {c : Config (service fs)} (h : Traced allow (start fs) c es) : Registry c.state es := by
  refine Traced.state_invariant ?_ ?_ ?_ ?_ h
  · refine ⟨fun _ h => (nomatch h), .nil, ?_, ?_, ?_, fun _ _ _ _ h => (nomatch h),
      fun _ _ _ _ _ h => (nomatch h), ?_, ?_⟩
    · intro k fh arc ht
      cases ht
    · intro k a h hd
      cases hd
    · rintro k ino fh h ⟨n, hn⟩
      cases hn
    · intro es₁ e es₂ k a h hes
      simp at hes
    · intro n k a hm
      cases hm
  · intro c es n i ch r s _ he hr
    exact hr.exec he
  · intro n req s s' es hs hr
    obtain rfl := Option.some.inj hs
    cases req with
    | forget ino nlookup =>
      exact ⟨hr.below, hr.nodup, hr.table, hr.cells, hr.stored, hr.found, hr.removed, hr.received,
        hr.released⟩
    | _ => exact hr
  · intro n req a s es hr
    exact ⟨hr.below, hr.nodup, hr.table, hr.cells, hr.stored, hr.found, hr.removed, hr.received,
        hr.released⟩

/-- A number is issued to one inode, with one payload. -/
lemma unique (hr : Registry s es) {ino' : ℕ} {h h' : fs.Payload k} (ho : Opening es k ino fh h)
    (ho' : Opening es k ino' fh h') : ino' = ino ∧ h' = h := by
  obtain ⟨n, hn⟩ := ho
  obtain ⟨n', hn'⟩ := ho'
  have heq : (⟨n, .addHandle k ino h, fh⟩ : Event (service fs)) =
      ⟨n', .addHandle k ino' h', fh⟩ :=
    eq_of_nodup_filterMap hr.nodup hn hn' rfl rfl
  cases heq
  exact ⟨rfl, rfl⟩

end Registry

/-! ## The counters of a refused request -/

/-- By how much a section changes the leases of an inode, when it takes or drops a lease. -/
def leaseChange (i : NodeId) (e : Event (service fs)) : ℤ :=
  match e with
  | ⟨_, .node _, r⟩ =>
    match show Option (NodeRef fs.Node) from r with
    | some ref => if ref.id = i then 1 else 0
    | none => 0
  | ⟨_, .dropNode ref, _⟩ => if ref.id = i then -1 else 0
  | _ => 0

lemma Denied.leaseChange {n : ℕ} {k : HandleKind} {ino fh : ℕ} {es : List (Event (service fs))}
    (h : Denied n k ino fh es) (i : NodeId) : (es.map (leaseChange i)).sum = 0 := by
  cases h <;> rfl

/-- A refused request drops every lease that it takes. -/
lemma Refused.leaseChange {n : ℕ} {k : HandleKind} {ino fh : ℕ} {errno : Errno}
    {es : List (Event (service fs))} (h : Refused n k ino fh errno es) (i : NodeId) :
    (es.map (leaseChange i)).sum = 0 := by
  have hpair : ∀ ref : NodeRef fs.Node,
      (if ref.id = i then (1 : ℤ) else 0) + (if ref.id = i then -1 else 0) = 0 := by
    intro ref
    split <;> rfl
  cases h with
  | dead | release => rfl
  | gone ref => simpa [TypedFuse.leaseChange] using hpair ref
  | denied ref hd =>
    have hz := hd.leaseChange i
    simp only [List.map_append, List.sum_append, hz]
    simpa [TypedFuse.leaseChange] using hpair ref
  | deniedDir ref parent hd =>
    have hz := hd.leaseChange i
    simp only [List.map_append, List.sum_append, hz]
    simpa [TypedFuse.leaseChange] using hpair ref

/-- A section that leaves the node table alone, or takes or drops a lease. -/
def RtInstr.Leasing {σ : FsSig} (i : RtInstr σ) : Prop :=
  i.Inert ∨ (∃ id, i = .node id) ∨ ∃ ref, i = .dropNode ref

lemma Denied.leasing {n : ℕ} {k : HandleKind} {ino fh : ℕ} {es : List (Event (service fs))}
    (h : Denied n k ino fh es) : ∀ e ∈ es, RtInstr.Leasing e.instr := by
  cases h with
  | unregistered => simp [RtInstr.Leasing, RtInstr.Inert]
  | foreign => simp [RtInstr.Leasing, RtInstr.Inert]
  | closing => simp [RtInstr.Leasing, RtInstr.Inert]

lemma Refused.leasing {n : ℕ} {k : HandleKind} {ino fh : ℕ} {errno : Errno}
    {es : List (Event (service fs))} (h : Refused n k ino fh errno es) :
    ∀ e ∈ es, RtInstr.Leasing e.instr := by
  cases h with
  | dead | gone | release => simp [RtInstr.Leasing, RtInstr.Inert]
  | denied ref hd =>
    refine List.forall_mem_append.mpr ⟨List.forall_mem_append.mpr ⟨?_, hd.leasing⟩, ?_⟩
    · simp [RtInstr.Leasing]
    · simp [RtInstr.Leasing]
  | deniedDir ref parent hd =>
    refine List.forall_mem_append.mpr ⟨List.forall_mem_append.mpr ⟨?_, hd.leasing⟩, ?_⟩
    · simp [RtInstr.Leasing, RtInstr.Inert]
    · simp [RtInstr.Leasing]

/-- What such a section does to the counters. -/
lemma count_leasing {c : Config (service fs)} (hr : Run anyAction (start fs) c) {m n : ℕ}
    {req : Request} {i : RtInstr fs.toFsSig} {k : i.Resp → RtProg fs.toFsSig (Fallible Reply)}
    {ch : Option fs.Choice} {r : i.Resp} {s' : RtState fs.toFsSig}
    (ht : c.threads[m]? = some ⟨n, req, .running (.act i k)⟩)
    (he : (service fs).exec n i ch c.state = some (r, s')) (hi : i.Leasing) (ctr : Counter)
    (j : NodeId) :
    (s'.table.count ctr j : ℤ) =
      c.state.table.count ctr j + if ctr = .leases then leaseChange j ⟨n, i, r⟩ else 0 := by
  rcases hi with hi | ⟨id, rfl⟩ | ⟨ref, rfl⟩
  · have htable := (inert_exec hi he).1
    have hzero : leaseChange j (⟨n, i, r⟩ : Event (service fs)) = 0 := by
      cases i with
      | node | dropNode => exact absurd hi id
      | _ => rfl
    rw [htable, hzero, ite_self, add_zero]
  · obtain ⟨⟨o, t'⟩, hget, heq⟩ := Option.map_eq_some_iff.mp he
    obtain ⟨rfl, rfl⟩ := Prod.mk.inj heq
    rcases Leased.get_cases hget with ⟨rfl, _, rfl⟩ | ⟨sl, rfl, _, hinc⟩
    · rw [show leaseChange j (⟨n, .node id, none⟩ : Event (service fs)) = 0 from rfl, ite_self,
        add_zero]
    · have hcount := count_incr hinc ctr j
      change ((t'.count ctr j : ℕ) : ℤ) =
        _ + if ctr = .leases then (if id = j then 1 else 0) else 0
      rw [hcount]
      by_cases hctr : ctr = .leases
      · by_cases hj : id = j
        · simp [hctr, hj]
        · simp [hctr, hj, Ne.symm hj]
      · simp [hctr]
  · obtain ⟨_, rfl⟩ := Prod.mk.inj (Option.some.inj he)
    -- the thread owns the lease that it drops
    have hat : c.At m req (.dropNode ref) := ⟨n, k, ht⟩
    obtain ⟨id, C, F, hC, hinv⟩ := (holds_any hr).contract hat
    cases hC with
    | dropNode _ gen =>
      have hi' : Inv Env.any c.state _ := hinv
      rw [view_single] at hi'
      have hpos := hi'.leased.count_pos_of_rt (Multiset.mem_cons_self _ _)
      obtain ⟨sl, hsl, hrec⟩ := hi'.leased.rtLive _ (Multiset.mem_cons_self _ _)
      have haddr : sl.record.addr = ref.record.addr := congrArg (fun x => x.2.1) hrec
      change (((c.state.table.dropRef ref).count ctr j : ℕ) : ℤ) =
        _ + if ctr = .leases then (if ref.id = j then -1 else 0) else 0
      rw [dropRef_eq_decr hsl haddr, count_decr]
      by_cases hctr : ctr = .leases
      · by_cases hj : ref.id = j
        · rw [← hj, hctr, if_pos ⟨rfl, rfl⟩, if_pos rfl, if_pos rfl]
          have hpos' : 0 < c.state.table.count .leases ref.id := hpos
          omega
        · simp [hctr, hj, Ne.symm hj]
      · simp [hctr]

/-! ## Every handle operation -/

/-- The handle was opened on the inode under this number and its payload not moved out. -/
def Valid (es : List (Event (service fs))) (k : HandleKind) (ino fh : ℕ) : Prop :=
  (∃ h, Opening es k ino fh h) ∧ ∀ e ∈ es, ¬Takes k fh e

/-- How handles are routed along a run with the trace `es` that ends in `c`. -/
structure HandleRouting (c : Config (service fs)) (es : List (Event (service fs))) : Prop where
  /-- Every number is issued at most once, to a file or to a directory. -/
  once : (es.filterMap issued).Nodup
  /-- A number is issued to a request that opens the inode, and the request returns it. -/
  opened : ∀ n k ino h fh, ⟨n, .addHandle k ino h, fh⟩ ∈ es →
    ∃ t, c.threads[n]? = some t ∧ t.req.Opens k ino ∧
      ∀ a, t.phase = .done a → Returned ino fh a
  /-- A payload is received by a request that names its handle, after it was opened on the inode
  of the request with this number and this payload, and before it was moved out. -/
  payload : ∀ es₁ e es₂ k fh h, es = es₁ ++ e :: es₂ → Receives k fh h e →
    ∃ t ino, c.threads[e.thread]? = some t ∧ t.req.handle = some (k, ino, fh) ∧
      Opening es₁ k ino fh h ∧ ∀ e' ∈ es₁, ¬Takes k fh e'
  /-- A request on a handle calls the filesystem only with such a payload. -/
  callback : ∀ es₁ e es₂ i t k ino fh, es = es₁ ++ e :: es₂ → e.instr = .fs i →
    c.threads[e.thread]? = some t → t.req.handle = some (k, ino, fh) →
    ∃ e' ∈ es₁, e'.thread = e.thread ∧ ∃ h, Receives k fh h e'
  /-- A request that received no payload was refused, with `EBADF` or, for an inode that is not
  live, with `ENOENT`. -/
  refused : ∀ n t a k ino fh, c.threads[n]? = some t → t.phase = .done a →
    t.req.handle = some (k, ino, fh) → (∀ e ∈ eventsOf n es, ∀ h, ¬Receives k fh h e) →
    ∃ errno, a = fail errno ∧ Refused n k ino fh errno (eventsOf n es)
  /-- So was every request on a handle that was not valid while it ran. -/
  invalid : ∀ n t a k ino fh, c.threads[n]? = some t → t.phase = .done a →
    t.req.handle = some (k, ino, fh) →
    (∀ es₁ e es₂, es = es₁ ++ e :: es₂ → e.thread = n → ¬Valid es₁ k ino fh) →
    ∃ errno, a = fail errno ∧ Refused n k ino fh errno (eventsOf n es)
  /-- The sections of a refused request change no counter, but for a lease on its inode that it
  takes and drops again. -/
  counts : ∀ n k ino fh errno, Refused n k ino fh errno (eventsOf n es) →
    (∀ i, ((eventsOf n es).map (leaseChange i)).sum = 0) ∧
      ∀ es₁ e es₂, es = es₁ ++ e :: es₂ → e.thread = n →
        ∃ c₁ ch s, Traced anyAction (start fs) c₁ es₁ ∧
          (service fs).exec n e.instr ch c₁.state = some (e.resp, s) ∧
          ∀ ctr i, (s.table.count ctr i : ℤ) =
            c₁.state.table.count ctr i + if ctr = .leases then leaseChange i e else 0

/-- Handle routing, for every filesystem and every interleaving of requests. -/
theorem handle_routing {c : Config (service fs)} {es : List (Event (service fs))}
    (htr : Traced anyAction (start fs) c es) : HandleRouting c es := by
  have hreg := Registry.of_traced htr
  have htracked : Tracked (fun _ req => May req) Finished c es :=
    htr.tracked rfl fun n req => tracks_serve n req
  have hpayload : ∀ es₁ e es₂ k fh h, es = es₁ ++ e :: es₂ → Receives k fh h e →
      ∃ t ino, c.threads[e.thread]? = some t ∧ t.req.handle = some (k, ino, fh) ∧
        Opening es₁ k ino fh h ∧ ∀ e' ∈ es₁, ¬Takes k fh e' := by
    intro es₁ e es₂ k fh h hes hrec
    obtain ⟨t, ht, hmay⟩ := htracked.events es₁ e es₂ hes
    obtain ⟨⟨ino, ho⟩, hno⟩ := hreg.received es₁ e es₂ k fh h hes hrec
    have hsub : ∀ e', e' ∈ es₁ → e' ∈ es := by
      intro e' he'
      rw [hes]
      exact List.mem_append_left _ he'
    have hold : Opening es k ino fh h := by
      rw [hes]
      exact ho.append _
    refine ⟨t, ino, ht, ?_, ho, hno⟩
    cases hrec with
    | deref n arc ha =>
      obtain ⟨ino', fh', hreq, hnode, m, hfind⟩ := hmay
      obtain ⟨haddr, h', ho'⟩ := hreg.found m k fh' arc (hsub _ (mem_eventsOf.mp hfind).1)
      obtain rfl : fh' = fh := haddr.symm.trans ha
      rw [hreq, (hreg.unique ho' hold).1, hnode]
    | take n arc ha =>
      obtain ⟨ino', fh', caller, hreq, m, hrem⟩ := hmay
      obtain ⟨haddr, h', ho'⟩ := hreg.removed m k ino' fh' arc (hsub _ (mem_eventsOf.mp hrem).1)
      obtain rfl : fh' = fh := haddr.symm.trans ha
      rw [hreq, (hreg.unique ho' hold).1]
      rfl
  -- the payload that a thread has received belongs to the handle that its request names
  have howned : ∀ es₁ e es₂ t k ino fh, es = es₁ ++ e :: es₂ →
      c.threads[e.thread]? = some t →
      t.req.handle = some (k, ino, fh) → (∃ k a h, Receives k a h e) →
      ∃ h, Receives k fh h e := by
    rintro es₁ e es₂ t k ino fh hes ht hreq ⟨k', a, h, hrec⟩
    obtain ⟨t', ino', ht', hreq', _⟩ := hpayload es₁ e es₂ k' a h hes hrec
    rw [ht] at ht'
    obtain rfl := Option.some.inj ht'
    rw [hreq] at hreq'
    cases hreq'
    exact ⟨h, hrec⟩
  have hrefused : ∀ n t a k ino fh, c.threads[n]? = some t → t.phase = .done a →
      t.req.handle = some (k, ino, fh) → (∀ e ∈ eventsOf n es, ∀ h, ¬Receives k fh h e) →
      ∃ errno, a = fail errno ∧ Refused n k ino fh errno (eventsOf n es) := by
    intro n t a k ino fh ht hd hreq hnot
    have hnever : ¬Received (eventsOf n es) := by
      rintro ⟨e, he, hrec⟩
      obtain ⟨hmem, hthread⟩ := mem_eventsOf.mp he
      obtain ⟨es₁, es₂, hes⟩ := List.append_of_mem hmem
      obtain ⟨h, hh⟩ := howned es₁ e es₂ t k ino fh hes (hthread.symm ▸ ht) hreq hrec
      exact hnot e he h hh
    have hfin : Finished n t.req a (eventsOf n es) := by
      obtain ⟨id, req, phase⟩ := t
      obtain rfl : phase = .done a := hd
      exact htracked.done n id req a ht
    rcases hfin.handle k ino fh hreq with hrec | href | ⟨⟨caller, hrel⟩, rfl⟩
    · exact absurd hrec hnever
    · exact href
    · -- a release that did not find the node would have moved the payload out
      rcases (handleSafety_of_holds (holds_any htr.run)).others n t _ k ino fh caller ht
        hrel hd with hebadf | hmem
      · exact absurd hebadf (by decide)
      · obtain ⟨arc, h, ha, he⟩ := hreg.released n k fh hmem
        exact absurd ⟨_, mem_eventsOf.mpr ⟨he, rfl⟩, k, fh, h, .take n arc ha⟩ hnever
  refine ⟨hreg.nodup, ?_, hpayload, ?_, hrefused, ?_, ?_⟩
  · intro n k ino h fh he
    obtain ⟨es₁, es₂, hes⟩ := List.append_of_mem he
    obtain ⟨t, ht, hmay⟩ := htracked.events es₁ _ es₂ hes
    refine ⟨t, ht, hmay, ?_⟩
    intro a hd
    obtain ⟨id, req, phase⟩ := t
    obtain rfl : phase = .done a := hd
    exact (htracked.done n id req a ht).issued n k ino h fh (mem_eventsOf.mpr ⟨he, rfl⟩)
  · intro es₁ e es₂ i t k ino fh hes hi ht hreq
    obtain ⟨t', ht', hmay⟩ := htracked.events es₁ e es₂ hes
    rw [ht] at ht'
    obtain rfl := Option.some.inj ht'
    rw [hi] at hmay
    obtain ⟨e', he', hrec⟩ := hmay (by rw [hreq]; rfl)
    obtain ⟨hmem, hthread⟩ := mem_eventsOf.mp he'
    obtain ⟨es₃, es₄, hes'⟩ := List.append_of_mem hmem
    refine ⟨e', hmem, hthread, howned es₃ e' (es₄ ++ e :: es₂) t k ino fh ?_
      (hthread ▸ ht) hreq hrec⟩
    rw [hes, hes', List.append_assoc, List.cons_append]
  · intro n t a k ino fh ht hd hreq hinv
    refine hrefused n t a k ino fh ht hd hreq ?_
    intro e he h hrec
    obtain ⟨hmem, hthread⟩ := mem_eventsOf.mp he
    obtain ⟨es₁, es₂, hes⟩ := List.append_of_mem hmem
    obtain ⟨t', ino', ht', hreq', ho, hno⟩ := hpayload es₁ e es₂ k fh h hes hrec
    rw [hthread, ht] at ht'
    obtain rfl := Option.some.inj ht'
    rw [hreq] at hreq'
    cases hreq'
    exact hinv es₁ e es₂ hes hthread ⟨⟨h, ho⟩, hno⟩
  · intro n k ino fh errno href
    refine ⟨href.leaseChange, ?_⟩
    rintro es₁ e es₂ hes rfl
    obtain ⟨c₁, m, req, k', ch, s, htr₁, _, ht₁, he, _⟩ := htr.fired hes
    refine ⟨c₁, ch, s, htr₁, he, ?_⟩
    have hmem : e ∈ eventsOf e.thread es := by
      refine mem_eventsOf.mpr ⟨?_, rfl⟩
      rw [hes]
      exact List.mem_append_right _ (List.mem_cons_self ..)
    exact fun ctr i => count_leasing htr₁.run ht₁ he (href.leasing e hmem) ctr i

/-- A file is opened and used under its number, on its inode, on another inode and as a
directory. -/
private def routedRequests : List (Action (service Sample.fs)) :=
  [.issue (.openNode .file NodeId.ROOT 0 {})] ++ Sample.steps 0 4 ++ [.answer 0,
    .issue (.fileOp .flush NodeId.ROOT 1 {}), .issue (.fileOp .flush 7 1 {}),
    .issue (.fsyncdir NodeId.ROOT 1 false {})] ++ Sample.steps 1 8 ++ Sample.steps 2 1 ++
    Sample.steps 3 3 ++ [.answer 1, .answer 2, .answer 3]

/-- The file is flushed through its number on its inode only. -/
theorem handle_routing_flush : ∃ (c : Config (service Sample.fs)) (es : List (Event _)),
    Traced anyAction (start Sample.fs) c es ∧
      c.threads[1]? = some ⟨1, .fileOp .flush NodeId.ROOT 1 {}, .done (fail .ENOSYS)⟩ ∧
      c.threads[2]? = some ⟨2, .fileOp .flush 7 1 {}, .done (fail .ENOENT)⟩ ∧
      c.threads[3]? = some ⟨3, .fsyncdir NodeId.ROOT 1 false {}, .done (fail .EBADF)⟩ ∧
      HandleRouting c es := by
  have hr : Run anyAction (start Sample.fs) (Sample.after Sample.anyCheck routedRequests) :=
    run_of_runs Sample.anyAction_of_check
      (show (start Sample.fs).runs Sample.anyCheck routedRequests = some _ from rfl)
  obtain ⟨es, htr⟩ := hr.traced
  exact ⟨_, es, htr, rfl, rfl, rfl, handle_routing htr⟩

end TypedFuse
