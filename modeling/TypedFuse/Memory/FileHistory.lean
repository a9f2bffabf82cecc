import TypedFuse.Core.Pinning
import TypedFuse.Memory.Callbacks
import TypedFuse.Memory.Contents

/-!
# The history of the files

Requests read and change files at any time, between any two steps of each other.  Still every
request changes at most one file, in one step, as it was asked to; if it is answered with success
then it has done so, and if it is answered with an error then it has not.  What a `read` returns was
in the file at one moment while the `read` was being served.
-/

namespace TypedFuse

open Conc Conc.Service NodeTable TypedFuse.Runtime

namespace MemoryFs

variable {uid gid : ℕ} {made : SystemTime} {n : ℕ} {req : Request} {α β : Type}

/-- What the thread performs. -/
abbrev Did (uid gid : ℕ) (made : SystemTime) : Type := Event (service (fs uid gid made))

/-- The changes of files among the events. -/
def changes (es : List (Did uid gid made)) : List (ℕ × (List UInt8 → List UInt8)) :=
  es.filterMap fun e => changeOf e.instr e.resp

/-- What the changes make of the bytes in a cell, one after the other. -/
def contentAfter (es : List (Did uid gid made)) (c : ℕ) (bytes : List UInt8) : List UInt8 :=
  (changes es).foldl (fun bytes change => if change.1 = c then change.2 bytes else bytes) bytes

/-- The change that a request asks for, and of which inode. -/
def asked : Request → Option (ℕ × (List UInt8 → List UInt8))
  | .fileOp (.write data offset) ino _ _ => some (ino, written data offset)
  | .setattr ino _ change _ => change.size.map fun size => (ino, truncated size)
  | _ => none

/-! ## What a request may do to files -/

/-- The instructions that change no file, and make only empty ones. -/
def Sparing : RtInstr sig → Prop
  | .fs (.own (Instr.write _ (.write _ _ _))) => False
  | .fs (.own (Instr.write _ (.setattr _ _))) => False
  | .fs (.own (Instr.alloc d)) => ∀ bytes, d.content = .file bytes → bytes = []
  | _ => True

/-- The thread has leased the node of this inode, whose data is in this cell. -/
def Leases (past : List (Did uid gid made)) (ino c : ℕ) : Prop :=
  ∃ (m : ℕ) (ref : NodeRef sig.Node), ⟨m, .node ino, some ref⟩ ∈ past ∧
    ref.record.payload = c

/-- The instruction changes the file as the request asks. -/
def Intended (req : Request) (past : List (Did uid gid made)) : RtInstr sig → Prop
  | .fs (.own (Instr.write c (.write data offset _))) =>
    ∃ ino fh caller, req = .fileOp (.write data offset) ino fh caller ∧ Leases past ino c
  | .fs (.own (Instr.write c (.setattr change _))) =>
    ∃ ino fh caller, req = .setattr ino fh change caller ∧ Leases past ino c
  | i => Sparing i

/-- No file was changed. -/
def Untouched (past : List (Did uid gid made)) : Prop :=
  ∀ e ∈ past, Sparing e.instr

/-- A request may change a file once, as it asks. -/
def MayRewrite (req : Request) (past : List (Did uid gid made)) (i : RtInstr sig) : Prop :=
  Intended req past i ∧ (Sparing i ∨ Untouched past)

lemma changeOf_eq_none {i : RtInstr sig} (hi : Sparing i) (r : i.Resp) : changeOf i r = none := by
  unfold changeOf
  split
  · cases hi
  · cases hi
  · rfl

lemma Sparing.may {past : List (Did uid gid made)} {i : RtInstr sig} (hi : Sparing i) :
    MayRewrite req past i := by
  refine ⟨?_, Or.inl hi⟩
  unfold Intended
  split
  · cases hi
  · cases hi
  · exact hi

lemma Sparing.of_runtime {i : RtInstr sig} (hi : ∀ j, i ≠ .fs j) : Sparing i := by
  cases i with
  | fs j => exact absurd rfl (hi j)
  | _ => trivial

/-- What most callbacks perform changes no file. -/
lemma naming_sparing : Naming Sparing where
  runtime := Sparing.of_runtime
  get := fun _ => trivial
  dropRef := fun _ => trivial
  now := trivial
  read := fun _ => trivial
  setxattr := fun _ _ _ _ _ => trivial
  removexattr := fun _ _ _ => trivial
  alloc := fun _ hd => hd
  insert := fun _ _ => trivial
  reparent := fun _ _ => trivial
  addLink := fun _ => trivial
  removeLink := fun _ => trivial
  write := by
    intro c u hw hs
    cases u with
    | write data offset t => exact absurd rfl (hw data offset t)
    | setattr change t => exact absurd rfl (hs change t)
    | _ => trivial

namespace Untouched

variable {past : List (Did uid gid made)}

lemma nil : Untouched ([] : List (Did uid gid made)) := by
  intro e he
  cases he

lemma snoc (h : Untouched past) {e : Did uid gid made} (he : Sparing e.instr) :
    Untouched (past ++ [e]) := by
  intro e' he'
  rcases List.mem_append.mp he' with he' | he'
  · exact h e' he'
  · obtain rfl := List.mem_singleton.mp he'
    exact he

lemma changes_eq (h : Untouched past) : changes past = [] := by
  refine List.filterMap_eq_nil_iff.mpr ?_
  intro e he
  exact changeOf_eq_none (h e he) e.resp

end Untouched

/-- What is known of an answer and a past, and stays so when a guard is given up. -/
def Lasting (Q : Fallible α → List (Did uid gid made) → Prop) : Prop :=
  ∀ a g e, Sparing e.instr → Q a g → Q a (g ++ [e])

section Tracks

variable {past : List (Did uid gid made)} {Q : Fallible α → List (Did uid gid made) → Prop}

/-- The request with the given past may run `p`, which ends in `Q`. -/
abbrev Rewriting (req : Request) (n : ℕ) (past : List (Did uid gid made)) (p : RtProg sig α)
    (Q : α → List (Did uid gid made) → Prop) : Prop :=
  Tracks (S := service (fs uid gid made)) (MayRewrite req) n past p Q

/-- A section of the runtime. -/
lemma Rewriting.sect {i : RtInstr sig} {f : i.Resp → RtProg sig β}
    {Q : β → List (Did uid gid made) → Prop} (hi : ∀ j, i ≠ .fs j)
    (hf : ∀ r, Rewriting req n (past ++ [⟨n, i, r⟩]) (f r) Q) :
    Rewriting req n past (Runtime.sect i >>= f) Q :=
  Tracks.step ((Sparing.of_runtime hi).may) hf

/-- A program that changes no file. -/
lemma Rewriting.calm {p : RtProg sig β} (hp : p.Performs Sparing)
    (hpast : Untouched past) : Rewriting req n past p fun _ g => Untouched g := by
  induction p generalizing past with
  | ret a => exact hpast
  | act i k ih =>
    refine ⟨hp.1.may, ?_⟩
    intro r
    exact ih r (hp.2 r) (hpast.snoc hp.1)

/-- An own step of a callback. -/
lemma Rewriting.own {i : Instr} {f : i.Resp → Callback β}
    {Q : β → List (Did uid gid made) → Prop} (hmay : MayRewrite req past (.fs (.own i)))
    (hf : ∀ r, Rewriting req n (past ++ [⟨n, .fs (.own i), r⟩]) (Runtime.call (f r)) Q) :
    Rewriting req n past (Runtime.call (MemoryFs.own i >>= f)) Q :=
  ⟨hmay, hf⟩

/-- A section of the runtime before the end. -/
lemma Rewriting.last {i : RtInstr sig} {a : Fallible α} {g : List (Did uid gid made)}
    (hi : ∀ j, i ≠ .fs j) (hQ : Lasting Q) (ha : Q a g) :
    Rewriting req n g (Runtime.sect i >>= fun _ => .ret a) Q :=
  Rewriting.sect hi fun _ => Tracks.ret (hQ a g _ (Sparing.of_runtime hi) ha)

/-- `node(ino)?` and the rest of the function. -/
lemma Rewriting.withNode {ino : ℕ} {body : NodeRef sig.Node → RtProg sig (Fallible α)}
    (hQ : Lasting Q) (hfail : ∀ e g, Untouched g → Q (fail e) g)
    (hbody : ∀ ref g, Untouched g → Leases g ino ref.record.payload →
      Rewriting req n g (body ref) Q) :
    Rewriting req n [] (withNode ino body) Q := by
  refine Rewriting.sect (fun _ h => nomatch h) ?_
  intro r
  have huntouched : Untouched ([] ++ [(⟨n, .node ino, r⟩ : Did uid gid made)]) :=
    Untouched.nil.snoc (Sparing.of_runtime fun _ h => nomatch h)
  cases r with
  | none => exact Tracks.ret (hfail _ _ huntouched)
  | some ref =>
    refine Tracks.bind (hbody ref _ huntouched ?_) ?_
    · exact ⟨n, ref, List.mem_append_right _ (List.mem_singleton_self _), rfl⟩
    · intro a g ha
      exact Rewriting.last (fun _ h => nomatch h) hQ ha

/-- `file(ino, fh)?` or `dir(ino, fh)?` and the rest of the function. -/
lemma Rewriting.withHandle {k : HandleKind} {ino fh : ℕ}
    {body : sig.Payload k → RtProg sig (Fallible α)} (hpast : Untouched past) (hQ : Lasting Q)
    (hfail : ∀ e g, Untouched g → Q (fail e) g)
    (hbody : ∀ h g, Untouched g → past ⊆ g → Rewriting req n g (body h) Q) :
    Rewriting req n past (withHandle k ino fh body) Q := by
  refine Rewriting.sect (fun _ h => nomatch h) ?_
  intro r
  have hfind : Untouched (past ++ [(⟨n, .findHandle k fh, r⟩ : Did uid gid made)]) :=
    hpast.snoc (Sparing.of_runtime fun _ h => nomatch h)
  cases r with
  | none => exact Tracks.ret (hfail _ _ hfind)
  | some record =>
    refine Prog.wp_ite (fun _ => ?_) fun _ =>
      Rewriting.last (fun _ h => nomatch h) hQ (hfail _ _ hfind)
    refine Rewriting.sect (fun _ h => nomatch h) ?_
    intro granted
    have hgranted := hfind.snoc (e := (⟨n, .acquire k record, granted⟩ : Did uid gid made))
      (Sparing.of_runtime fun _ h => nomatch h)
    refine Prog.wp_ite (fun _ => ?_) fun _ =>
      Rewriting.last (fun _ h => nomatch h) hQ (hfail _ _ hgranted)
    refine Rewriting.sect (fun _ h => nomatch h) fun r => ?_
    have hdropped := hgranted.snoc (e := (⟨n, .dropArc k record, r⟩ : Did uid gid made))
      (Sparing.of_runtime fun _ h => nomatch h)
    refine Rewriting.sect (fun _ h => nomatch h) fun payload => ?_
    have hderef := hdropped.snoc (e := (⟨n, .deref k record, payload⟩ : Did uid gid made))
      (Sparing.of_runtime fun _ h => nomatch h)
    refine Tracks.bind (hbody payload _ hderef ?_) ?_
    · intro e he
      exact List.mem_append_left _ (List.mem_append_left _ (List.mem_append_left _
        (List.mem_append_left _ he)))
    · intro a g ha
      refine Rewriting.sect (fun _ h => nomatch h) fun r => ?_
      exact Rewriting.last (fun _ h => nomatch h) hQ
        (hQ a g _ (Sparing.of_runtime fun _ h => nomatch h) ha)

/-- A file handle that is there or not, and the rest of the function. -/
lemma Rewriting.withOptionalFile {ino : ℕ} {fh : Option ℕ}
    {body : Option (sig.Payload .file) → RtProg sig (Fallible α)} (hpast : Untouched past)
    (hQ : Lasting Q) (hfail : ∀ e g, Untouched g → Q (fail e) g)
    (hbody : ∀ h g, Untouched g → past ⊆ g → Rewriting req n g (body h) Q) :
    Rewriting req n past (withOptionalFile ino fh body) Q := by
  cases fh with
  | none => exact hbody none past hpast (List.Subset.refl past)
  | some fh => exact Rewriting.withHandle hpast hQ hfail fun h g hg hsub => hbody (some h) g hg hsub

end Tracks

lemma Leases.mono {past past' : List (Did uid gid made)} {ino c : ℕ} (h : Leases past ino c)
    (hsub : past ⊆ past') : Leases past' ino c := by
  obtain ⟨m, ref, href, hc⟩ := h
  exact ⟨m, ref, hsub href, hc⟩

/-! ## What a request has done -/

/-- The bytes were in the file of this inode at a moment of the past. -/
def Saw (past : List (Did uid gid made)) (ino offset size : ℕ) (bytes : List UInt8) : Prop :=
  ∃ (g₁ g₂ : List (Did uid gid made)) (m c : ℕ) (d : NodeData) (content : List UInt8),
    past = g₁ ++ ⟨m, .fs (.own (Instr.read c)), d⟩ :: g₂ ∧ Leases g₁ ino c ∧
      d.content = .file content ∧ bytes = (content.drop offset).take size

/-- What an answered request has done. -/
structure Outcome (req : Request) (a : Fallible Reply) (past : List (Did uid gid made)) : Prop where
  /-- A `read` has seen what it returns. -/
  read : ∀ offset size ino fh caller v, req = .fileOp (.read offset size) ino fh caller →
    a = .ok v → ∃ bytes, v = .value (.bytes bytes) ∧ Saw past ino offset size bytes
  /-- A `write` returns what its section returned. -/
  write : ∀ data offset ino fh caller v, req = .fileOp (.write data offset) ino fh caller →
    a = .ok v → ∃ (m c : ℕ) (t : SystemTime) (count : ℕ), v = .value (.count count) ∧
      ⟨m, .fs (.own (Instr.write c (.write data offset t))), (.ok count : Fallible ℕ)⟩ ∈
        past
  /-- Success means that the change was made. -/
  applied : ∀ v, a = .ok v → (asked req).isSome → changes past ≠ []
  /-- An error means that it was not. -/
  refused : ∀ e, a = .error e → changes past = []

lemma Saw.append {past : List (Did uid gid made)} {ino offset size : ℕ} {bytes : List UInt8}
    (h : Saw past ino offset size bytes) (more : List (Did uid gid made)) :
    Saw (past ++ more) ino offset size bytes := by
  obtain ⟨g₁, g₂, m, c, d, content, rfl, hleases, hd, hbytes⟩ := h
  exact ⟨g₁, g₂ ++ more, m, c, d, content, by simp, hleases, hd, hbytes⟩

lemma changes_append (g g' : List (Did uid gid made)) :
    changes (g ++ g') = changes g ++ changes g' :=
  List.filterMap_append

/-- An instruction that changes no file adds no change. -/
lemma changes_snoc {g : List (Did uid gid made)} {e : Did uid gid made} (he : Sparing e.instr) :
    changes (g ++ [e]) = changes g := by
  have hone : changes [e] = [] := (Untouched.nil.snoc he).changes_eq
  rw [changes_append, hone, List.append_nil]

/-- `read`. -/
lemma tracks_read (offset size ino fh : ℕ) (caller : Caller) :
    Rewriting req n ([] : List (Did uid gid made))
      (Runtime.fileOp (fs uid gid made) (.read offset size) ino fh caller)
      fun a g => Untouched g ∧
        ∀ v, a = .ok v → ∃ bytes, v = .bytes bytes ∧ Saw g ino offset size bytes := by
  have hfail : ∀ (e : Errno) (g : List (Did uid gid made)), Untouched g → Untouched g ∧
      ∀ v : Value, fail e = .ok v →
        ∃ bytes, v = .bytes bytes ∧ Saw g ino offset size bytes :=
    fun e g hg => ⟨hg, fun _ h => nomatch h⟩
  have hlasting : Lasting fun (a : Fallible Value) (g : List (Did uid gid made)) => Untouched g ∧
      ∀ v, a = .ok v → ∃ bytes, v = .bytes bytes ∧ Saw g ino offset size bytes := by
    rintro a g e he ⟨hg, hsaw⟩
    refine ⟨hg.snoc he, ?_⟩
    intro v ha
    obtain ⟨bytes, hv, hbytes⟩ := hsaw v ha
    exact ⟨bytes, hv, hbytes.append [e]⟩
  refine Rewriting.withNode hlasting hfail fun ref g hg hleases => ?_
  refine Rewriting.withHandle hg hlasting hfail fun handle g hg hsub => ?_
  refine Rewriting.own (Sparing.may trivial) fun d => ?_
  have hd : Untouched (g ++
      [(⟨n, .fs (.own (Instr.read ref.record.payload)), d⟩ : Did uid gid made)]) :=
    hg.snoc trivial
  split
  · next content hcontent =>
    have hsaw : ∀ bytes, bytes = (content.drop offset).take size →
        Saw (g ++ [⟨n, .fs (.own (Instr.read ref.record.payload)), d⟩]) ino offset size bytes :=
      fun _ hbytes => ⟨g, [], n, _, d, content, rfl, hleases.mono hsub, hcontent, hbytes⟩
    split
    · next hend =>
      refine Tracks.ret ⟨hd, ?_⟩
      intro v hv
      obtain rfl := Except.ok.inj hv
      refine ⟨_, rfl, hsaw [] ?_⟩
      rw [List.drop_eq_nil_of_le hend, List.take_nil]
    · split
      · refine Tracks.ret ⟨hd, ?_⟩
        intro v hv
        obtain rfl := Except.ok.inj hv
        exact ⟨_, rfl, hsaw _ rfl⟩
      · exact Tracks.ret ⟨hd, fun _ h => nomatch h⟩
  · exact Tracks.ret (hfail _ _ hd)

/-- What a change of a file has done. -/
def Changed (P : α → List (Did uid gid made) → Prop) (a : Fallible α)
    (g : List (Did uid gid made)) : Prop :=
  match a with
  | .ok v => P v g
  | .error _ => changes g = []

lemma Changed.lasting {P : α → List (Did uid gid made) → Prop}
    (hP : ∀ v g e, P v g → P v (g ++ [e])) : Lasting (Changed P) := by
  intro a g e he ha
  cases a with
  | ok v => exact hP v g e ha
  | error _ => exact (changes_snoc he).trans ha

/-- `write`. -/
lemma tracks_write {data : List UInt8} {offset ino fh : ℕ} {caller : Caller}
    (hreq : req = .fileOp (.write data offset) ino fh caller) :
    Rewriting req n ([] : List (Did uid gid made))
      (Runtime.fileOp (fs uid gid made) (.write data offset) ino fh caller)
      (Changed fun v g => ∃ (m c : ℕ) (t : SystemTime) (count : ℕ), v = .count count ∧
        ⟨m, .fs (.own (Instr.write c (.write data offset t))), (.ok count : Fallible ℕ)⟩ ∈
          g) := by
  have hfail : ∀ (e : Errno) (g : List (Did uid gid made)), Untouched g → changes g = [] :=
    fun e g hg => hg.changes_eq
  have hlasting : Lasting (Changed fun v (g : List (Did uid gid made)) =>
      ∃ (m c : ℕ) (t : SystemTime) (count : ℕ), v = Value.count count ∧
        ⟨m, .fs (.own (Instr.write c (.write data offset t))), (.ok count : Fallible ℕ)⟩ ∈
          g) := by
    refine Changed.lasting ?_
    rintro v g e ⟨m, c, t, count, hv, hmem⟩
    exact ⟨m, c, t, count, hv, List.mem_append_left _ hmem⟩
  refine Rewriting.withNode hlasting hfail fun ref g hg hleases => ?_
  refine Rewriting.withHandle hg hlasting hfail fun handle g hg hsub => ?_
  refine Rewriting.own (Sparing.may trivial) fun t => ?_
  have ht : Untouched (g ++ [(⟨n, .fs (.own Instr.now), t⟩ : Did uid gid made)]) :=
    hg.snoc trivial
  refine Rewriting.own ⟨⟨ino, fh, caller, hreq, ?_⟩, Or.inr ht⟩ fun r => ?_
  · exact (hleases.mono hsub).mono fun e he => List.mem_append_left _ he
  cases hr : (show Fallible ℕ from r) with
  | ok count =>
    obtain rfl : r = (.ok count : Fallible ℕ) := hr
    exact Tracks.ret ⟨n, _, t, count, rfl, List.mem_append_right _ (List.mem_singleton_self _)⟩
  | error e =>
    obtain rfl : r = (.error e : Fallible ℕ) := hr
    refine Tracks.ret ?_
    change changes _ = []
    rw [changes_append, ht.changes_eq]
    rfl

/-- `setattr`. -/
lemma tracks_setattr {ino : ℕ} {fh : Option ℕ} {change : SetAttr} {caller : Caller}
    (hreq : req = .setattr ino fh change caller) :
    Rewriting req n ([] : List (Did uid gid made))
      (Runtime.setattr (fs uid gid made) ino fh change caller)
      (Changed fun _ g => change.size.isSome → changes g ≠ []) := by
  have hfail : ∀ (e : Errno) (g : List (Did uid gid made)), Untouched g → changes g = [] :=
    fun e g hg => hg.changes_eq
  have hlasting : Lasting (Changed (α := NodeAttr) fun _ (g : List (Did uid gid made)) =>
      change.size.isSome → changes g ≠ []) := by
    refine Changed.lasting ?_
    intro v g e hg hsize hnil
    rw [changes_append] at hnil
    exact hg hsize (List.append_eq_nil_iff.mp hnil).1
  refine Rewriting.withNode hlasting hfail fun ref g hg hleases => ?_
  refine Rewriting.withOptionalFile hg hlasting hfail fun handle g hg hsub => ?_
  refine Rewriting.own (Sparing.may trivial) fun t => ?_
  have ht : Untouched (g ++ [(⟨n, .fs (.own Instr.now), t⟩ : Did uid gid made)]) :=
    hg.snoc trivial
  refine Rewriting.own ⟨⟨ino, fh, caller, hreq, ?_⟩, Or.inr ht⟩ fun r => ?_
  · exact (hleases.mono hsub).mono fun e he => List.mem_append_left _ he
  refine Tracks.ret ?_
  intro hsize hnil
  obtain ⟨size, hsome⟩ := Option.isSome_iff_exists.mp hsize
  rw [changes_append, List.append_eq_nil_iff] at hnil
  have hone : changeOf (.fs (.own (Instr.write ref.record.payload (.setattr change t)))) r =
      some (ref.record.payload, truncated size) := congrArg (Option.map _) hsome
  have hlast := List.filterMap_eq_nil_iff.mp hnil.2 _ (List.mem_singleton_self _)
  cases hone.symm.trans hlast

/-- A request that asks for no change and reads no file. -/
lemma Outcome.of_untouched {a : Fallible Reply} {past : List (Did uid gid made)}
    (hpast : Untouched past)
    (hread : ∀ offset size ino fh caller, req ≠ .fileOp (.read offset size) ino fh caller)
    (hasked : asked req = none) : Outcome req a past := by
  refine ⟨?_, ?_, ?_, ?_⟩
  · intro offset size ino fh caller v hreq
    exact absurd hreq (hread offset size ino fh caller)
  · rintro data offset ino fh caller v rfl
    cases hasked
  · intro v _ hsome
    rw [hasked] at hsome
    cases hsome
  · exact fun _ _ => hpast.changes_eq

/-- A request that is answered with an error. -/
lemma Outcome.of_error {e : Failure} {past : List (Did uid gid made)} (hpast : changes past = []) :
    Outcome req (.error e) past := by
  refine ⟨?_, ?_, ?_, fun _ _ => hpast⟩
  · intro offset size ino fh caller v _ ha
    cases ha
  · intro data offset ino fh caller v _ ha
    cases ha
  · intro v ha
    cases ha

/-- A request other than `read` that is answered with success. -/
lemma Outcome.of_ok {v : Reply} {past : List (Did uid gid made)}
    (hread : ∀ offset size ino fh caller, req ≠ .fileOp (.read offset size) ino fh caller)
    (hwrite : ∀ data offset ino fh caller, req = .fileOp (.write data offset) ino fh caller →
      ∃ (m c : ℕ) (t : SystemTime) (count : ℕ), v = .value (.count count) ∧
        ⟨m, .fs (.own (Instr.write c (.write data offset t))), (.ok count : Fallible ℕ)⟩ ∈
          past)
    (happlied : (asked req).isSome → changes past ≠ []) : Outcome req (.ok v) past := by
  refine ⟨?_, ?_, fun _ _ => happlied, ?_⟩
  · intro offset size ino fh caller v hreq
    exact absurd hreq (hread offset size ino fh caller)
  · intro data offset ino fh caller v hreq ha
    obtain rfl := Except.ok.inj ha
    exact hwrite data offset ino fh caller hreq
  · intro e ha
    cases ha

/-- What every request has done. -/
lemma tracks_serve (n : ℕ) (req : Request) :
    Rewriting req n ([] : List (Did uid gid made)) (serve (fs uid gid made) req) (Outcome req) := by
  have hother : (∀ data offset ino fh caller,
      req ≠ .fileOp (.write data offset) ino fh caller) →
      (∀ ino fh change caller, req ≠ .setattr ino fh change caller) →
      (∀ offset size ino fh caller, req ≠ .fileOp (.read offset size) ino fh caller) →
      asked req = none → Rewriting req n ([] : List (Did uid gid made))
        (serve (fs uid gid made) req) (Outcome req) := by
    intro hwrite hset hread hasked
    have hperforms : (serve (fs uid gid made) req).Performs Sparing := by
      refine performs_serve naming_sparing.toTame ?_ ?_ fun _ => naming_sparing
      · exact fun ino fh change caller hreq => absurd hreq (hset ino fh change caller)
      · exact fun data offset ino fh caller hreq => absurd hreq (hwrite data offset ino fh caller)
    refine (Rewriting.calm hperforms Untouched.nil).mono ?_
    exact fun a g hg => Outcome.of_untouched hg hread hasked
  cases req with
  | fileOp op ino fh caller =>
    cases op with
    | read offset size =>
      refine Tracks.bind (tracks_read offset size ino fh caller) ?_
      rintro a g ⟨hg, hsaw⟩
      refine Tracks.ret ⟨?_, ?_, ?_, ?_⟩
      · rintro offset' size' ino' fh' caller' v hreq ha
        cases hreq
        cases a with
        | error e => cases ha
        | ok v' =>
          obtain rfl := Except.ok.inj ha
          obtain ⟨bytes, rfl, hbytes⟩ := hsaw v' rfl
          exact ⟨bytes, rfl, hbytes⟩
      · intro data offset ino fh caller v hreq
        cases hreq
      · intro v _ hsome
        cases hsome
      · exact fun _ _ => hg.changes_eq
    | write data offset =>
      refine Tracks.bind (tracks_write rfl) ?_
      intro a g ha
      cases a with
      | error e => exact Tracks.ret (Outcome.of_error ha)
      | ok v =>
        obtain ⟨m, c, t, count, rfl, hmem⟩ := ha
        refine Tracks.ret (Outcome.of_ok (by simp) ?_ ?_)
        · rintro data' offset' ino' fh' caller' hreq
          cases hreq
          exact ⟨m, c, t, count, rfl, hmem⟩
        · intro _ hnil
          have hnone := List.filterMap_eq_nil_iff.mp hnil _ hmem
          cases hnone
    | _ => exact hother (by simp) (by simp) (by simp) rfl
  | setattr ino fh change caller =>
    refine Tracks.bind (tracks_setattr rfl) ?_
    intro a g ha
    cases a with
    | error e => exact Tracks.ret (Outcome.of_error ha)
    | ok v =>
      refine Tracks.ret (Outcome.of_ok (by simp) (by simp) ?_)
      intro hsome
      apply ha
      obtain ⟨p, hp⟩ := Option.isSome_iff_exists.mp hsome
      obtain ⟨size, hsize, _⟩ := Option.map_eq_some_iff.mp hp
      exact Option.isSome_iff_exists.mpr ⟨size, hsize⟩
  | _ => exact hother (by simp) (by simp) (by simp) rfl

/-! ## The files along a run -/

/-- The events tell what is in the cells. -/
structure Recorded (h : Heap) (es : List (Did uid gid made)) : Prop where
  bounded : ∀ c d, h.cells.lookup c = some d → c < h.next
  changed : ∀ c bytes, h.next ≤ c → contentAfter es c bytes = bytes
  content : ∀ c bytes, files h c = some bytes → bytes = contentAfter es c []

/-- The files that were made were empty. -/
def MadeEmpty (es : List (Did uid gid made)) : Prop :=
  ∀ e ∈ es, ∀ d, e.instr = .fs (.own (Instr.alloc d)) →
    ∀ bytes, d.content = .file bytes → bytes = []

lemma contentAfter_snoc (es : List (Did uid gid made)) (e : Did uid gid made) (c : ℕ)
    (bytes : List UInt8) : contentAfter (es ++ [e]) c bytes =
      rewritten e.instr e.resp c (contentAfter es c bytes) := by
  unfold contentAfter rewritten
  rw [changes_append, List.foldl_append]
  unfold changes
  rw [List.filterMap_cons]
  split
  · next h =>
    rw [h]
    rfl
  · next p h =>
    rw [h]
    rfl

lemma Recorded.step {h h' : Heap} {es : List (Did uid gid made)} {n : ℕ} {i : RtInstr sig}
    {r : i.Resp} (hr : Recorded h es) (hstep : HeapStep h i r h')
    (hnew : ∀ d, i = .fs (.own (Instr.alloc d)) →
      ∀ bytes, d.content = .file bytes → bytes = []) :
    Recorded h' (es ++ [⟨n, i, r⟩]) := by
  have hlast : ∀ c bytes, h.next ≤ c → rewritten i r c bytes = bytes := by
    intro c bytes hc
    unfold rewritten
    split
    · next hof => exact if_neg ((hstep.changed_lt hr.bounded hof).trans_le hc).ne
    · rfl
  obtain ⟨hle, hbounded⟩ := hstep.bounded hr.bounded
  refine ⟨hbounded, ?_, ?_⟩
  · intro c bytes hc
    rw [contentAfter_snoc, hr.changed c bytes (hle.trans hc)]
    exact hlast c bytes (hle.trans hc)
  · intro c bytes hc
    rw [contentAfter_snoc]
    by_cases hnext : c = h.next
    · subst hnext
      obtain ⟨d, hd, hcontent⟩ := hstep.file_new hr.bounded hc
      rw [hnew d hd bytes hcontent, hr.changed _ _ le_rfl]
      exact (hlast _ _ le_rfl).symm
    · rw [hstep.files_eq hnext] at hc
      obtain ⟨bytes', hbytes', rfl⟩ := Option.map_eq_some_iff.mp hc
      rw [← hr.content c bytes' hbytes']

/-- At first there is only the root. -/
lemma Recorded.start : Recorded (fs uid gid made).init ([] : List (Did uid gid made)) := by
  have hroot : ∀ {c d},
      ((∅ : BTreeMap ℕ NodeData).insert 0 (rootData uid gid made)).lookup c = some d →
        c = 0 ∧ d = rootData uid gid made := by
    intro c d hc
    rw [BTreeMap.lookup_insert_ite] at hc
    split at hc
    · next hzero => exact ⟨hzero, (Option.some.inj hc).symm⟩
    · cases hc
  refine ⟨?_, ?_, ?_⟩
  · intro c d hc
    exact (hroot hc).1 ▸ Nat.one_pos
  · exact fun _ _ _ => rfl
  · intro c bytes hc
    obtain ⟨d, hd, hfile⟩ := Option.bind_eq_some_iff.mp hc
    obtain ⟨_, rfl⟩ := hroot hd
    cases hfile

/-- A change is what the request asks for. -/
lemma Intended.change {past : List (Did uid gid made)} {i : RtInstr sig} {r : i.Resp} {cell : ℕ}
    {change : List UInt8 → List UInt8} (h : Intended req past i)
    (hc : changeOf i r = some (cell, change)) :
    ∃ ino, asked req = some (ino, change) ∧ Leases past ino cell := by
  have hcell : ∀ {c u}, i = .fs (.own (Instr.write c u)) → cell = c := by
    rintro c u rfl
    exact changeOf_cell hc
  unfold changeOf at hc
  split at hc
  · obtain rfl := hcell rfl
    obtain ⟨ino, fh, caller, rfl, hleases⟩ := h
    split at hc
    · obtain ⟨_, rfl⟩ := Prod.mk.inj (Option.some.inj hc)
      exact ⟨ino, rfl, hleases⟩
    · cases hc
  · obtain rfl := hcell rfl
    obtain ⟨ino, fh, caller, rfl, hleases⟩ := h
    obtain ⟨size, hsize, heq⟩ := Option.map_eq_some_iff.mp hc
    obtain ⟨_, rfl⟩ := Prod.mk.inj heq
    exact ⟨ino, congrArg (Option.map _) hsize, hleases⟩
  · cases hc

/-- What a section under a read guard sees. -/
lemma lookup_of_read {s s' : RtState sig} {n c : ℕ} {ch : Option SystemTime} {d : NodeData}
    (he : s.exec n (.fs (.own (Instr.read c))) ch = some (d, s')) :
    s.fs.cells.lookup c = some d := by
  cases ch with
  | none => cases he
  | some ch =>
    obtain ⟨⟨r, h⟩, hexec, heq⟩ := Option.map_eq_some_iff.mp he
    obtain ⟨rfl, _⟩ := Prod.mk.inj heq
    obtain ⟨d, hd, heq⟩ := Option.map_eq_some_iff.mp hexec
    obtain ⟨rfl, _⟩ := Prod.mk.inj heq
    exact hd

/-- What a write that succeeds returns. -/
lemma count_of_write {s s' : RtState sig} {n c offset count : ℕ} {data : List UInt8}
    {t : SystemTime} {ch : Option SystemTime}
    (he : s.exec n (.fs (.own (Instr.write c (.write data offset t)))) ch =
      some ((.ok count : Fallible ℕ), s')) : count = data.length := by
  have hstep := heapStep_exec he
  generalize s'.fs = h at hstep
  cases hstep with
  | same hi => exact absurd rfl (hi _ _)
  | write hd hu =>
    rcases fileOf_write hu with ⟨_, _, hcount, _⟩ | ⟨hcount, _⟩
    · exact Except.ok.inj hcount
    · cases hcount

section Run

variable {c : Config (service (fs uid gid made))} {es : List (Did uid gid made)}

lemma tracked_of_traced (h : Traced anyAction (start (fs uid gid made)) c es) :
    Tracked (fun _ => MayRewrite) (fun _ => Outcome) c es :=
  h.tracked rfl tracks_serve

/-- The cells are what the events tell. -/
lemma recorded_of_traced (h : Traced anyAction (start (fs uid gid made)) c es) :
    Recorded c.state.fs es := by
  have hnew : MadeEmpty es := by
    intro e he d hd
    obtain ⟨es₁, es₂, hes⟩ := List.append_of_mem he
    obtain ⟨t, _, hmay⟩ := (tracked_of_traced h).events es₁ e es₂ hes
    have hintended := hmay.1
    rw [hd] at hintended
    exact hintended
  refine Traced.state_invariant
    (P := fun (s : RtState sig) (es : List (Did uid gid made)) => MadeEmpty es → Recorded s.fs es)
    (fun _ => Recorded.start) ?_ ?_ ?_ h hnew
  · intro c es n i ch r s _ he ih hall
    have hlast := hall _ (List.mem_append_right es (List.mem_singleton_self _))
    exact (ih fun e hmem => hall e (List.mem_append_left _ hmem)).step (heapStep_exec he) hlast
  · intro n req s s' es hs ih hall
    obtain rfl := Option.some.inj hs
    cases req <;> exact ih hall
  · exact fun ih => ih

/-- The changes of one thread. -/
lemma changes_of_thread (h : Traced anyAction (start (fs uid gid made)) c es) (n : ℕ) :
    changes (eventsOf n es) = [] ∨ ∃ t ino change cell, c.threads[n]? = some t ∧
      asked t.req = some (ino, change) ∧ Leases (eventsOf n es) ino cell ∧
      changes (eventsOf n es) = [(cell, change)] := by
  have hmay : ∀ g₁ e g₂, eventsOf n es = g₁ ++ e :: g₂ →
      ∃ t, c.threads[n]? = some t ∧ MayRewrite t.req g₁ e.instr := by
    intro g₁ e g₂ hsplit
    obtain ⟨es₁, es₂, hes, rfl, rfl⟩ := eventsOf_split hsplit
    exact (tracked_of_traced h).events es₁ e es₂ hes
  rcases List.eq_nil_or_concat (changes (eventsOf n es)) with hnil | ⟨before, p, hcons⟩
  · exact Or.inl hnil
  refine Or.inr ?_
  have hp : p ∈ changes (eventsOf n es) := by
    rw [hcons]
    simp
  obtain ⟨e, he, hof⟩ := List.mem_filterMap.mp hp
  obtain ⟨g₁, g₂, hsplit⟩ := List.append_of_mem he
  obtain ⟨t, ht, hintended, honce⟩ := hmay g₁ e g₂ hsplit
  have hrewrites : ¬Sparing e.instr := by
    intro hs
    cases (changeOf_eq_none hs e.resp).symm.trans hof
  -- the instruction comes once, so neither the past nor the future has changed anything
  have hpast : Untouched g₁ := honce.resolve_left hrewrites
  have hfuture : Untouched g₂ := by
    intro e' he'
    obtain ⟨h₁, h₂, rfl⟩ := List.append_of_mem he'
    have hsplit' : eventsOf n es = (g₁ ++ e :: h₁) ++ e' :: h₂ := by
      rw [hsplit]
      simp
    obtain ⟨t', _, _, honce'⟩ := hmay _ e' h₂ hsplit'
    refine honce'.resolve_right fun huntouched => hrewrites ?_
    exact huntouched e (List.mem_append_right g₁ List.mem_cons_self)
  obtain ⟨cell, change⟩ := p
  obtain ⟨ino, hasked, hleases⟩ := hintended.change hof
  refine ⟨t, ino, change, cell, ht, hasked, ?_, ?_⟩
  · rw [hsplit]
    exact hleases.mono fun e he => List.mem_append_left _ he
  · have hone : changes (e :: g₂) = (cell, change) :: changes g₂ :=
      List.filterMap_cons_some hof
    rw [hsplit, changes_append, hpast.changes_eq, hone, hfuture.changes_eq, List.nil_append]

end Run

/-- What a run has done to the files. -/
structure FileHistory (c : Config (service (fs uid gid made))) (es : List (Did uid gid made)) :
    Prop where
  /-- A file holds what the changes have made of it, one after the other. -/
  content : ∀ cell bytes, files c.state.fs cell = some bytes → bytes = contentAfter es cell []
  /-- A request has changed nothing, or once, as it asked, the node that it had leased. -/
  own : ∀ n, changes (eventsOf n es) = [] ∨ ∃ t ino change cell, c.threads[n]? = some t ∧
    asked t.req = some (ino, change) ∧ Leases (eventsOf n es) ino cell ∧
    changes (eventsOf n es) = [(cell, change)]
  /-- A request that was answered with success has made the change that it asks for. -/
  applied : ∀ n id req v, c.threads[n]? = some ⟨id, req, .done (.ok v)⟩ →
    (asked req).isSome →
    changes (eventsOf n es) ≠ []
  /-- A request that was answered with an error has changed nothing. -/
  refused : ∀ n id req e, c.threads[n]? = some ⟨id, req, .done (.error e)⟩ →
    changes (eventsOf n es) = []
  /-- A `write` writes all that it was given. -/
  write : ∀ (n id : ℕ) data offset ino fh caller (v : Reply),
    c.threads[n]? = some ⟨id, .fileOp (.write data offset) ino fh caller, .done (.ok v)⟩ →
    v = .value (.count data.length)
  /-- A `read` returns what was in the file when it looked. -/
  read : ∀ (n id : ℕ) offset size ino fh caller (v : Reply),
    c.threads[n]? = some ⟨id, .fileOp (.read offset size) ino fh caller, .done (.ok v)⟩ →
    ∃ es₁ e es₂ cell, es = es₁ ++ e :: es₂ ∧ e.thread = n ∧
      Leases (eventsOf n es₁) ino cell ∧
      v = .value (.bytes (((contentAfter es₁ cell []).drop offset).take size))

/-- Files are linearizable: whatever is going on at the same time, every `write` and every `setattr`
takes effect at once, and every `read` sees the effects of those before it. -/
theorem file_history {c : Config (service (fs uid gid made))} {es : List (Did uid gid made)}
    (h : Traced anyAction (start (fs uid gid made)) c es) : FileHistory c es := by
  have hdone : ∀ {n id req a}, c.threads[n]? = some ⟨id, req, .done a⟩ →
      Outcome req a (eventsOf n es) :=
    fun ht => (tracked_of_traced h).done _ _ _ _ ht
  refine ⟨(recorded_of_traced h).content, changes_of_thread h, ?_, ?_, ?_, ?_⟩
  · intro n id req v ht hasked
    exact (hdone ht).applied v rfl hasked
  · intro n id req e ht
    exact (hdone ht).refused e rfl
  · intro n id data offset ino fh caller v ht
    obtain ⟨m, cell, t, count, rfl, hmem⟩ := (hdone ht).write data offset ino fh caller v
      rfl rfl
    obtain ⟨es₁, es₂, hes⟩ := List.append_of_mem (mem_eventsOf.mp hmem).1
    obtain ⟨c₁, _, _, _, ch, s, _, _, _, he, _⟩ := h.fired hes
    rw [count_of_write he]
  · intro n id offset size ino fh caller v ht
    obtain ⟨bytes, rfl, hsaw⟩ := (hdone ht).read offset size ino fh caller v rfl rfl
    obtain ⟨g₁, g₂, m, cell, d, content, hsplit, hleases, hd, rfl⟩ := hsaw
    obtain ⟨es₁, es₂, hes, rfl, rfl⟩ := eventsOf_split hsplit
    obtain ⟨c₁, _, _, _, ch, s, htr, _, _, he, _⟩ := h.fired hes
    refine ⟨es₁, _, es₂, cell, hes, rfl, hleases, ?_⟩
    have hfile : files c₁.state.fs cell = some content := by
      unfold files
      rw [lookup_of_read he]
      unfold fileOf
      dsimp only [Option.bind]
      rw [hd]
    rw [← (recorded_of_traced htr).content cell content hfile]

/-- The changes after a file was there. -/
lemma files_after {c c' : Config (service (fs uid gid made))} {es es' : List (Did uid gid made)}
    (h : Traced anyAction (start (fs uid gid made)) c es) (h' : Traced anyAction c c' es')
    {cell : ℕ} {bytes : List UInt8} (hfile : files c.state.fs cell = some bytes) :
    files c'.state.fs cell = some (contentAfter es' cell bytes) := by
  have hlt : ∀ {s : RtState sig} {bytes}, (∀ c d, s.fs.cells.lookup c = some d →
      c < s.fs.next) →
      files s.fs cell = some bytes → cell < s.fs.next := by
    intro s bytes hb hs
    obtain ⟨d, hd, _⟩ := Option.bind_eq_some_iff.mp hs
    exact hb cell d hd
  refine (Traced.state_invariant (P := fun (s : RtState sig) (es : List (Did uid gid made)) =>
    (∀ c d, s.fs.cells.lookup c = some d → c < s.fs.next) ∧
      files s.fs cell = some (contentAfter es cell bytes))
    ⟨(recorded_of_traced h).bounded, hfile⟩ ?_ ?_ ?_ h').2
  · rintro c es n i ch r s _ he ⟨hb, hold⟩
    have hstep := heapStep_exec he
    refine ⟨(hstep.bounded hb).2, ?_⟩
    rw [contentAfter_snoc, hstep.files_eq (hlt hb hold).ne, hold]
    rfl
  · rintro n req s s' es hs hold
    obtain rfl := Option.some.inj hs
    cases req <;> exact hold
  · exact fun hold => hold

/-- An open file stays: as long as a handle is registered, all requests on its inode are about the
same cell, also when the file has no name any more, and the cell holds what it held with the changes
since then. -/
theorem open_file_stays {c c' : Config (service (fs uid gid made))}
    {es es' : List (Did uid gid made)} {k : HandleKind} {fh ino : ℕ}
    (h : Traced anyAction (start (fs uid gid made)) c es) (h' : Traced anyAction c c' es')
    (hopen : RegisteredFor c.state k fh ino) (hopen' : RegisteredFor c'.state k fh ino) :
    ∃ cell : ℕ, (∀ (m : ℕ) (ref : NodeRef sig.Node),
      ⟨m, .node ino, some ref⟩ ∈ es' →
        ref.record.payload = cell) ∧
      (∃ sl, c'.state.table.slot ino = some sl ∧ sl.record.payload = cell) ∧
      ∀ bytes, files c.state.fs cell = some bytes →
        files c'.state.fs cell = some (contentAfter es' cell bytes) := by
  obtain ⟨_, hstays⟩ := hopen'.before h.run h' (hopen.lt h.run)
  obtain ⟨sl, hsl⟩ := hopen.live h.run
  refine ⟨sl.record.payload, ?_, ?_, fun bytes => files_after h h'⟩
  · intro m ref hmem
    obtain ⟨es₁, es₂, hes⟩ := List.append_of_mem hmem
    obtain ⟨c₁, _, _, _, ch, s, htr, _, _, he, _⟩ := hstays.fired hes
    obtain ⟨sl₁, hsl₁, hrec, _⟩ := same_node h.run hsl htr.run
    obtain ⟨⟨o, t'⟩, hget, heq⟩ := Option.map_eq_some_iff.mp he
    obtain ⟨rfl, _⟩ := Prod.mk.inj heq
    rcases Leased.get_cases hget with ⟨hnone, _⟩ | ⟨sl', href, hsl', _⟩
    · cases hnone
    · obtain rfl := Option.some.inj href
      obtain rfl := Option.some.inj (hsl₁.symm.trans hsl')
      exact congrArg (fun record => record.payload) hrec
  · obtain ⟨sl', hsl', hrec, _⟩ := same_node h.run hsl hstays.run
    exact ⟨sl', hsl', by rw [hrec]⟩

/-- Steps of a thread. -/
private def stepsOf (n m : ℕ) : List (Action (service (fs 0 0 .epoch))) :=
  List.replicate m (.step n (some SystemTime.epoch))

/-- A file is made, and stays open. -/
private def creating : List (Action (service (fs 0 0 .epoch))) :=
  [.issue (.create NodeId.ROOT [97] 0o644 0 0 {})] ++ stepsOf 0 17 ++ [.answer 0]

/-- It is unlinked, and then read while it is written. -/
private def writingAndReading : List (Action (service (fs 0 0 .epoch))) :=
  [.issue (.treeOp (.unlink NodeId.ROOT [97]) {})] ++ stepsOf 1 14 ++ [.answer 1] ++
    [.issue (.fileOp (.write [1, 2, 3] 1) (2 : ℕ) 1 {})] ++ stepsOf 2 7 ++
    [.issue (.fileOp (.read 0 8) (2 : ℕ) 1 {})] ++ stepsOf 3 9 ++ [.answer 3] ++ stepsOf 2 3 ++
    [.answer 2]

/-- The configuration after actions. -/
private def doing (c : Config (service (fs 0 0 .epoch)))
    (actions : List (Action (service (fs 0 0 .epoch)))) : Config (service (fs 0 0 .epoch)) :=
  (c.runs (fun _ _ => true) actions).getD c

private lemma traced_doing (c : Config (service (fs 0 0 .epoch)))
    (actions : List (Action (service (fs 0 0 .epoch))))
    (h : (c.runs (fun _ _ => true) actions).isSome = true) :
    ∃ es, Traced anyAction c (doing c actions) es := by
  obtain ⟨c', hc⟩ := Option.isSome_iff_exists.mp h
  have hrun : Run anyAction c c' := run_of_runs (fun _ _ _ => trivial) hc
  unfold doing
  rw [hc]
  exact hrun.traced

/-- The file had no name any more, and what was read is what was written. -/
theorem file_history_unlinked : ∃ (c : Config (service (fs 0 0 .epoch)))
    (es : List (Did 0 0 .epoch)), files c.state.fs 1 = some [0, 1, 2, 3] ∧ FileHistory c es := by
  obtain ⟨es, hes⟩ := traced_doing (start (fs 0 0 .epoch)) (creating ++ writingAndReading)
    (by decide +kernel)
  exact ⟨_, es, by decide +kernel, file_history hes⟩

/-- The file stays while it is unlinked. -/
theorem open_file_stays_unlinked : ∃ (c c' : Config (service (fs 0 0 .epoch)))
    (es' : List (Did 0 0 .epoch)) (cell : ℕ), Traced anyAction c c' es' ∧
      files c.state.fs cell = some [] ∧ c'.state.table.count .links (2 : ℕ) = 0 ∧
      files c'.state.fs cell = some (contentAfter es' cell []) := by
  obtain ⟨es, h⟩ := traced_doing (start (fs 0 0 .epoch)) creating (by decide +kernel)
  obtain ⟨es', h'⟩ := traced_doing (doing (start (fs 0 0 .epoch)) creating) writingAndReading
    (by decide +kernel)
  have hopen : RegisteredFor (doing (start (fs 0 0 .epoch)) creating).state .file 1 (2 : ℕ) :=
    ⟨⟨1, (2 : ℕ)⟩, by decide +kernel, rfl⟩
  have hopen' : RegisteredFor (doing (doing (start (fs 0 0 .epoch)) creating)
      writingAndReading).state .file 1 (2 : ℕ) := ⟨⟨1, (2 : ℕ)⟩, by decide +kernel, rfl⟩
  obtain ⟨cell, _, ⟨sl, hsl, hcell⟩, hfile⟩ := open_file_stays h h' hopen hopen'
  have hone : ((doing (doing (start (fs 0 0 .epoch)) creating) writingAndReading).state.table.slot
      (2 : ℕ)).map (fun sl => show ℕ from sl.record.payload) = some 1 := by
    decide +kernel
  rw [hsl] at hone
  obtain rfl : cell = 1 := hcell.symm.trans (Option.some.inj hone)
  exact ⟨_, _, es', 1, h', by decide +kernel, by decide +kernel, hfile [] (by decide +kernel)⟩

end MemoryFs

end TypedFuse
