import TypedFuse.Core.Sections

/-!
# The programs of the runtime meet their contracts

The specifications of the functions of `runtime.rs`, in the token logic: most entry points need no
tokens and leave none, `entry_for` leaves the lookup it counted, `readdirplus` leaves the lookups
of the entries it retained, and `release` leaves the proof that it moved the payload out, unless it
answers `EBADF`.
-/

namespace TypedFuse

open Conc NodeTable TypedFuse.Runtime

/-- The entry of a reply names the node that the callback returned. -/
def Entry.Exact (e : Entry) : Prop :=
  e.denoted = some (e.leased, e.reply.generation)

/-- Every entry of an answer names the node that the callback returned. -/
def ExactReply : Fallible Reply → Prop
  | .ok (.entry e) => e.Exact
  | .ok (.created e _ _) => e.Exact
  | _ => True

/-- The tokens that a request leaves with its answer. -/
def Post (E : Env) (n : ℕ) (req : Request) (a : Fallible Reply) (g : Multiset Token) : Prop :=
  match req with
  | .release k _ fh _ =>
    delivered a = 0 ∧ ExactReply a ∧ ((a = fail .EBADF ∧ g = 0) ∨ g = {.took n k fh})
  | _ =>
    (g = (delivered a).map (Token.lookup n) ∧ (E.stable → ExactReply a)) ∨
      (g = {.vanished n} ∧ a = fail .ENOENT)

/-- What remains true of an answered request. -/
def Fact (E : Env) (n : ℕ) (req : Request) (a : Fallible Reply) {σ : FsSig} (s : RtState σ) :
    Prop :=
  (E.stable → ExactReply a) ∧
    ∀ k ino fh caller, req = .release k ino fh caller →
      a = fail .EBADF ∨ (n, k, fh) ∈ s.hist.released

/-- The tokens that a request starts with: a `forget` has to give back what it names. -/
def Init (n : ℕ) : Request → Multiset Token
  | .forget ino nlookup => Multiset.replicate nlookup (.lookup n ino)
  | _ => 0

/-- The token logic of the runtime. -/
def rtLogic (fs : NodeFs) (E : Env) : Logic (service fs) Token where
  inv := fun s T => Inv E s (view T)
  own := fun n x => x.own n
  contract := fun n _ C => RtContract E n _ C
  init := Init
  post := Post E
  fact := fun n req a s => Fact E n req a s

variable {fs : NodeFs} {E : Env} {n : ℕ} {α β : Type}

/-- A thread can run `p` from the tokens `g` and ends with a value and tokens in `Q`. -/
def Meets (fs : NodeFs) (E : Env) (n : ℕ) (g : Multiset Token) (p : RtProg fs.toFsSig α)
    (Q : α → Multiset Token → Prop) : Prop :=
  (rtLogic fs E).Meets n g p Q

/-- A program that needs no tokens and leaves none. -/
def Neutral (fs : NodeFs) (E : Env) (n : ℕ) (p : RtProg fs.toFsSig α) : Prop :=
  Meets fs E n 0 p fun _ g => g = 0

namespace Meets

variable {g : Multiset Token}

lemma ret {a : α} {Q : α → Multiset Token → Prop} (h : Q a g) :
    Meets fs E n g (Prog.ret a) Q :=
  h

lemma mono {p : RtProg fs.toFsSig α} {Q Q' : α → Multiset Token → Prop}
    (h : Meets fs E n g p Q) (hQ : ∀ a g', Q a g' → Q' a g') : Meets fs E n g p Q' :=
  Logic.Meets.mono h hQ

lemma bind {p : RtProg fs.toFsSig α} {f : α → RtProg fs.toFsSig β}
    {Q : α → Multiset Token → Prop} {Q' : β → Multiset Token → Prop}
    (h : Meets fs E n g p Q) (hf : ∀ a g', Q a g' → Meets fs E n g' (f a) Q') :
    Meets fs E n g (p >>= f) Q' :=
  Logic.Meets.bind h hf

/-- Use an instruction under a contract and go on. -/
lemma sect {i : RtInstr fs.toFsSig} {C : Contract Token i.Resp} (hC : RtContract E n i C)
    {f : Multiset Token} (hg : g = C.take + f) {k : i.Resp → RtProg fs.toFsSig α}
    {Q : α → Multiset Token → Prop}
    (hk : ∀ r g', C.give r g' → Meets fs E n (g' + f) (k r) Q) :
    Meets fs E n g (Runtime.sect i >>= k) Q :=
  ⟨C, f, hC, hg, hk⟩

/-- Use an instruction that needs no tokens and yields none. -/
lemma free {i : RtInstr fs.toFsSig} (hC : RtContract E n i .free)
    {k : i.Resp → RtProg fs.toFsSig α} {Q : α → Multiset Token → Prop}
    (hk : ∀ r, Meets fs E n g (k r) Q) : Meets fs E n g (Runtime.sect i >>= k) Q := by
  refine sect hC (zero_add g).symm ?_
  rintro r g' rfl
  rw [zero_add]
  exact hk r

/-- Run a program that needs some of the tokens, then another one with the rest and what the first
one leaves. -/
lemma bindFrame {g₀ f₀ : Multiset Token} {p : RtProg fs.toFsSig α}
    {f : α → RtProg fs.toFsSig β} {Q : α → Multiset Token → Prop}
    {Q' : β → Multiset Token → Prop} (h : Meets fs E n g₀ p Q) (hg : g = g₀ + f₀)
    (hf : ∀ a g', Q a g' → Meets fs E n (g' + f₀) (f a) Q') :
    Meets fs E n g (p >>= f) Q' :=
  Logic.Meets.bind_frame h hg hf

/-- Callbacks leave the tokens alone. -/
lemma call (p : FsProg fs.toFsSig α) : Meets fs E n g (Runtime.call p) fun _ g' => g' = g := by
  refine Prog.wp_embed (Q := fun _ g' => g' = g) ?_ (fun _ => rfl) p
  intro i K hK
  refine ⟨.free, g, .fs i, (zero_add g).symm, ?_⟩
  rintro r g' rfl
  rw [zero_add]
  exact hK r

/-- Call the filesystem and go on. -/
lemma callBind (p : FsProg fs.toFsSig α) {k : α → RtProg fs.toFsSig β}
    {Q : β → Multiset Token → Prop} (hk : ∀ a, Meets fs E n g (k a) Q) :
    Meets fs E n g (Runtime.call p >>= k) Q := by
  refine (call p).bind ?_
  rintro a g' rfl
  exact hk a

/-- Run a function under a lease on its node. -/
lemma withNode {ino : ℕ} {body : NodeRef fs.Node → RtProg fs.toFsSig (Fallible α)}
    {Q : Fallible α → Multiset Token → Prop} (hnone : Q (fail .ENOENT) g)
    (hbody : ∀ ref gen, ref.id = ino →
      Meets fs E n ({ref.token gen} + g) (body ref) fun r g' =>
        ∃ g₁, g' = {ref.token gen} + g₁ ∧ Q r g₁) :
    Meets fs E n g (Runtime.withNode ino body) Q := by
  refine sect (.node ino) (zero_add g).symm ?_
  rintro r g' (⟨rfl, rfl⟩ | ⟨ref, gen, rfl, hid, rfl⟩)
  · rw [zero_add]
    exact ret hnone
  · refine (hbody ref gen hid).bind ?_
    rintro a g' ⟨g₁, rfl, hQ⟩
    refine sect (.dropNode ref gen) rfl ?_
    rintro _ g' rfl
    rw [zero_add]
    exact ret hQ

/-- A function under a lease on its node that does not use the lease. -/
lemma withNode_frame {ino : ℕ} {body : NodeRef fs.Node → RtProg fs.toFsSig (Fallible α)}
    {Q : Fallible α → Multiset Token → Prop} (hnone : Q (fail .ENOENT) g)
    (hbody : ∀ ref, Meets fs E n g (body ref) Q) :
    Meets fs E n g (Runtime.withNode ino body) Q := by
  refine withNode hnone ?_
  intro ref gen _
  rw [add_comm]
  refine (Logic.Meets.frame (hbody ref) {ref.token gen}).mono ?_
  rintro a g' ⟨g₀, rfl, hQ⟩
  exact ⟨g₀, add_comm _ _, hQ⟩

/-- Run a function under a lease on a handle. -/
lemma withHandle {k : HandleKind} {ino fh : ℕ}
    {body : fs.Payload k → RtProg fs.toFsSig (Fallible α)}
    {Q : Fallible α → Multiset Token → Prop} (hbad : Q (fail .EBADF) g)
    (hbody : ∀ payload, Meets fs E n g (body payload) Q) :
    Meets fs E n g (Runtime.withHandle k ino fh body) Q := by
  -- dropping the `Arc` and failing
  have hfail : ∀ record : HandleArc, Meets fs E n ({.arc k record.addr} + g)
      (do Runtime.sect (.dropArc k record); return fail .EBADF) Q := by
    intro record
    refine sect (.dropArc k record) rfl ?_
    rintro _ g' rfl
    rw [zero_add]
    exact ret hbad
  refine sect (.findHandle k fh) (zero_add g).symm ?_
  rintro r g' (⟨rfl, rfl⟩ | ⟨record, rfl, rfl⟩)
  · rw [zero_add]
    exact ret hbad
  dsimp only
  split
  · refine sect (.acquire k record) rfl ?_
    rintro granted g' (⟨rfl, rfl⟩ | ⟨rfl, rfl⟩)
    · refine sect (.dropArc k record) (add_assoc _ _ _) ?_
      rintro _ g' rfl
      rw [zero_add]
      refine sect (.deref k record) rfl ?_
      rintro payload g' rfl
      rw [add_comm]
      refine (Logic.Meets.frame (hbody payload) _).bind ?_
      rintro a g' ⟨g₀, rfl, hQ⟩
      refine sect (.dropLease k record) (add_comm _ _) ?_
      rintro _ g' rfl
      refine sect (.dropArc k record) rfl ?_
      rintro _ g' rfl
      rw [zero_add]
      exact ret hQ
    · exact hfail record
  · exact hfail record

/-- Run a function with a lease on a handle if one was named. -/
lemma withOptionalFile {ino : ℕ} {fh : Option ℕ}
    {body : Option (fs.Payload .file) → RtProg fs.toFsSig (Fallible α)}
    {Q : Fallible α → Multiset Token → Prop} (hbad : Q (fail .EBADF) g)
    (hbody : ∀ payload, Meets fs E n g (body payload) Q) :
    Meets fs E n g (Runtime.withOptionalFile ino fh body) Q := by
  cases fh with
  | none => exact hbody none
  | some fh => exact withHandle hbad fun payload => hbody (some payload)

/-- Go on after a successful outcome, or pass the failure on. -/
lemma onOk {outcome : Fallible α} {next : α → RtProg fs.toFsSig (Fallible β)}
    {Q : Fallible β → Multiset Token → Prop} (herr : ∀ e, Q (.error e) g)
    (hok : ∀ a, Meets fs E n g (next a) Q) : Meets fs E n g (Runtime.onOk outcome next) Q := by
  cases outcome with
  | error e => exact ret (herr e)
  | ok a => exact hok a

/-- Run a directory callback whose sink keeps the tokens a function of its state. -/
lemma handle {D τ : Type} {p : DirProg fs.toFsSig D α}
    {h : (i : DirInstr fs.toFsSig D) → τ → RtProg fs.toFsSig (i.Resp × τ)}
    (tok : τ → Multiset Token)
    (hstep : ∀ i acc, Meets fs E n (tok acc) (h i acc) fun r g' => g' = tok r.2)
    {P : α → Prop} (hp : p.Returns P) (acc : τ) :
    Meets fs E n (tok acc) (p.handle h acc) fun r g' => g' = tok r.2 ∧ P r.1 :=
  Prog.wp_handle (Logic.mono_spec _ n) hstep (fun _ _ ha => ⟨rfl, ha⟩) hp acc

end Meets

/-! ## Entries -/

/-- What `entry_for` leaves: the lookup it counted, or nothing, or the news that the node is
gone. -/
def EntryPost (E : Env) (n id : ℕ) (a : Fallible Entry) (g : Multiset Token) : Prop :=
  (∃ e, a = .ok e ∧ e.reply.ino = id ∧ g = {.lookup n id} ∧ (E.stable → e.Exact)) ∨
    (∃ e, a = .error e ∧ g = 0) ∨ (a = fail .ENOENT ∧ g = {.vanished n})

/-- The specification of `entry_for`. -/
lemma meets_entryFor (id : NodeId) (caller : Caller) :
    Meets fs E n 0 (entryFor fs id caller) (EntryPost E n id) := by
  refine Meets.sect (.denote id) (zero_add 0).symm ?_
  rintro denoted g' rfl
  refine Meets.sect (.lease id denoted) rfl ?_
  rintro r g' (⟨rfl, rfl⟩ | ⟨ref, gen, rfl, rfl, rfl, hden⟩)
  · exact Meets.ret (Or.inr (Or.inr ⟨rfl, add_zero _⟩))
  refine Meets.callBind _ ?_
  intro result
  cases result with
  | error e =>
    refine Meets.sect (.dropNode ref gen) rfl ?_
    rintro _ g' rfl
    exact Meets.ret (Or.inr (Or.inl ⟨e, rfl, rfl⟩))
  | ok attr =>
    refine Meets.sect (.grant ref gen) rfl ?_
    rintro r g' ⟨rfl, rfl⟩
    refine Meets.sect (.dropNode ref gen) (add_assoc _ _ _) ?_
    rintro _ g' rfl
    refine Meets.ret (Or.inl ⟨_, rfl, rfl, ?_, hden⟩)
    simp

/-- What a request with an entry reply leaves. -/
lemma EntryPost.post {id : ℕ} {a : Fallible Entry} {g : Multiset Token} (h : EntryPost E n id a g)
    {req : Request} (hreq : ∀ k ino fh caller, req ≠ .release k ino fh caller)
    {f : Entry → Reply} (hf : ∀ e, f e = .entry e) : Post E n req (a.map f) g := by
  have hpost : (g = (delivered (a.map f)).map (Token.lookup n) ∧
      (E.stable → ExactReply (a.map f))) ∨ (g = {.vanished n} ∧ a.map f = fail .ENOENT) := by
    rcases h with ⟨e, rfl, rfl, rfl, hex⟩ | ⟨e, rfl, rfl⟩ | ⟨rfl, rfl⟩
    · refine Or.inl ⟨?_, ?_⟩
      · simp [Except.map, hf, delivered]
      · intro hst
        simpa [Except.map, hf, ExactReply] using hex hst
    · exact Or.inl ⟨by simp [Except.map, delivered], fun _ => by simp [Except.map, ExactReply]⟩
    · exact Or.inr ⟨rfl, rfl⟩
  unfold Post
  split
  · exact absurd rfl (hreq _ _ _ _)
  · exact hpost

/-! ## Retained lookups -/

/-- The tokens of lookups that the thread has counted. -/
def lookupTokens (n : ℕ) (ids : List NodeId) : Multiset Token :=
  Multiset.map (Token.lookup n) ↑ids

/-- Forgetting the retained lookups. -/
lemma meets_forgetAll (ids : List NodeId) :
    Meets fs E n (lookupTokens n ids) (forgetAll ids) fun _ g => g = 0 := by
  induction ids with
  | nil => exact Meets.ret rfl
  | cons id ids ih =>
    refine Meets.sect (.forget id 1) (f := lookupTokens n ids) ?_ ?_
    · simp [lookupTokens]
    · rintro _ g' rfl
      rw [zero_add]
      exact ih

/-- The accounting sink keeps the tokens of the lookups it has accepted. -/
lemma meets_accounting (sink : Sink PlusEntry) (acc : Accounting) (name : Name) (id : NodeId)
    (attr : NodeAttr) (nextOffset : ℕ) :
    Meets fs E n (lookupTokens n acc.accepted) (Accounting.add sink acc name id attr nextOffset)
      fun r g => g = lookupTokens n r.2.accepted := by
  refine Meets.free (.plusEntry id) ?_
  intro r
  cases r with
  | none => exact Meets.ret rfl
  | some generation =>
    dsimp only
    split
    · split
      · refine Meets.sect (.retainLookup id) (zero_add _).symm ?_
        rintro r g' (⟨rfl, rfl⟩ | ⟨gen, rfl, rfl⟩)
        · refine Meets.ret ?_
          rw [zero_add]
        · refine Meets.ret ?_
          simp only [lookupTokens, ← Multiset.coe_add, Multiset.map_add, Multiset.coe_singleton,
            Multiset.map_singleton]
          exact add_comm _ _
      · exact Meets.ret rfl
    · exact Meets.ret rfl

/-! ## Entry points without tokens -/

/-- What a request that hands out no lookups leaves. -/
lemma post_of_neutral {req : Request} (hreq : ∀ k ino fh caller, req ≠ .release k ino fh caller)
    {a : Fallible Reply} (hd : delivered a = 0) (hex : ExactReply a) : Post E n req a 0 := by
  unfold Post
  split
  · exact absurd rfl (hreq _ _ _ _)
  · exact Or.inl ⟨by rw [hd, Multiset.map_zero], fun _ => hex⟩

lemma neutral_getattr (ino : ℕ) (fh : Option ℕ) (caller : Caller) :
    Neutral fs E n (getattr fs ino fh caller) :=
  Meets.withNode_frame rfl fun _ => Meets.withOptionalFile rfl fun _ => Meets.call _

lemma neutral_setattr (ino : ℕ) (fh : Option ℕ) (set : SetAttr) (caller : Caller) :
    Neutral fs E n (setattr fs ino fh set caller) :=
  Meets.withNode_frame rfl fun _ => Meets.withOptionalFile rfl fun _ => Meets.call _

lemma neutral_nodeOp (op : NodeOp) (ino : ℕ) (caller : Caller) :
    Neutral fs E n (nodeOp fs op ino caller) :=
  Meets.withNode_frame rfl fun _ => Meets.call _

lemma neutral_fileOp (op : FileOp) (ino fh : ℕ) (caller : Caller) :
    Neutral fs E n (fileOp fs op ino fh caller) :=
  Meets.withNode_frame rfl fun _ => Meets.withHandle rfl fun _ => Meets.call _

lemma neutral_fsyncdir (ino fh : ℕ) (datasync : Bool) (caller : Caller) :
    Neutral fs E n (fsyncdir fs ino fh datasync caller) :=
  Meets.withNode_frame rfl fun _ => Meets.withHandle rfl fun _ => Meets.call _

/-- `open` and `opendir`: the lease on the node makes `add_open` succeed. -/
lemma neutral_openNode (k : HandleKind) (ino : ℕ) (flags : ℤ) (caller : Caller) :
    Neutral fs E n (openNode fs k ino flags caller) := by
  refine Meets.withNode rfl ?_
  rintro ref gen rfl
  refine Meets.callBind _ ?_
  intro result
  refine Meets.onOk (fun e => ⟨0, rfl, rfl⟩) ?_
  intro opened
  refine Meets.sect (.addOpen ref gen) rfl ?_
  rintro live g' ⟨rfl, rfl⟩
  refine Meets.sect (.addHandle k ref.id opened.handle) (f := {ref.token gen}) ?_ ?_
  · rw [add_zero]
    exact add_comm _ _
  · rintro fh g' rfl
    exact Meets.ret ⟨0, add_comm _ _, rfl⟩

/-- `readdir`. -/
lemma neutral_readdir (ino fh offset : ℕ) (sink : Sink DirEntry) (caller : Caller) :
    Neutral fs E n (readdir fs ino fh offset sink caller) := by
  refine Meets.withNode_frame rfl ?_
  intro ref
  refine Meets.free (.parentOf ino) ?_
  intro parent
  cases parent with
  | none => exact Meets.ret rfl
  | some parent =>
    refine Meets.withHandle rfl ?_
    intro payload
    refine Meets.bind (Meets.handle (fun _ => 0) ?_ (Prog.returns_true _) []) ?_
    · intro i offered
      cases i with
      | fs i =>
        refine Meets.free (g := 0) (.fs i) ?_
        intro r
        exact Meets.ret rfl
      | add name id kind nextOffset => exact Meets.ret rfl
    · rintro ⟨result, offered⟩ g ⟨rfl, _⟩
      exact Meets.ret rfl

/-! ## Entry points with tokens -/

/-- `close_and_take`. -/
lemma meets_closeAndTake (k : HandleKind) (record : HandleArc) :
    Meets fs E n {.closer k record.addr .removed} (closeAndTake k record)
      fun _ g => g = {.arc k record.addr} + {.took n k record.addr} := by
  have htake : Meets fs E n {.closer k record.addr .drained} (Runtime.sect (.take k record))
      fun _ g => g = {.arc k record.addr} + {.took n k record.addr} := by
    refine Logic.meets_perform (L := rtLogic fs E) (RtContract.take k record) (add_zero _).symm ?_
    rintro payload g' rfl
    rw [add_zero]
  refine Meets.sect (.close k record) (add_zero _).symm ?_
  rintro drained g' (⟨rfl, rfl⟩ | ⟨rfl, rfl⟩)
  · rw [add_zero]
    exact htake
  · refine Meets.sect (.drain k record) rfl ?_
    rintro _ g' rfl
    rw [add_zero]
    exact htake

/-- `release` and `releasedir`: the payload was moved out, or the answer is `EBADF`. -/
lemma meets_release (k : HandleKind) (ino fh : ℕ) (caller : Caller) :
    Meets fs E n 0 (release fs k ino fh caller)
      fun a g => (a = fail .EBADF ∧ g = 0) ∨ g = {.took n k fh} := by
  refine Meets.sect (.removeHandle k ino fh) (zero_add 0).symm ?_
  rintro r g' (⟨rfl, rfl⟩ | ⟨record, rfl, rfl, rfl⟩)
  · exact Meets.ret (Or.inl ⟨rfl, rfl⟩)
  refine Meets.bind (Q := fun _ g => g = {.arc k record.addr} + {.took n k record.addr}) ?_ ?_
  · -- the open is still counted, so the node is live
    refine Meets.sect (.nodeOpen ino) (f := {.closer k record.addr .removed}) (add_zero _) ?_
    rintro r g' ⟨ref, gen, rfl, hid, rfl⟩
    refine Meets.bind
      (Q := fun _ g => g = {.arc k record.addr} + {.took n k record.addr} + {ref.token gen}) ?_ ?_
    · refine Meets.sect (.removeOpen ino) (f := {.closer k record.addr .removed} + {ref.token gen})
        (by abel) ?_
      rintro _ g' rfl
      rw [zero_add]
      refine Meets.bindFrame (meets_closeAndTake k record) rfl ?_
      rintro payload g' rfl
      exact Meets.call _
    · rintro a g' rfl
      refine Meets.sect (.dropNode ref gen) (add_comm _ _) ?_
      rintro _ g' rfl
      exact Meets.ret (zero_add _)
  · rintro a g' rfl
    refine Meets.sect (.dropArc k record) rfl ?_
    rintro _ g' rfl
    exact Meets.ret (Or.inr (zero_add _))

/-- `readdirplus`: the lookups of the retained entries, or nothing if it fails. -/
lemma meets_readdirplus (hfs : E.noPanic → fs.NoPanic) (ino fh offset : ℕ)
    (sink : Sink PlusEntry) (caller : Caller) :
    Meets fs E n 0 (readdirplus fs ino fh offset sink caller)
      fun a g => (∃ l, a = .ok l ∧ g = lookupTokens n l.1) ∨
      (∃ e, a = .error e ∧ g = 0) := by
  have hfail : ∀ e : Errno, (∃ l : List NodeId × List PlusEntry, fail e = .ok l ∧
      (0 : Multiset Token) = lookupTokens n l.1) ∨
      (∃ e', (fail e : Fallible (List NodeId × List PlusEntry)) = .error e' ∧
        (0 : Multiset Token) = 0) :=
    fun e => Or.inr ⟨.errno e, rfl, rfl⟩
  refine Meets.withNode_frame (hfail _) ?_
  intro ref
  refine Meets.free (.parentOf ino) ?_
  intro parent
  cases parent with
  | none => exact Meets.ret (hfail _)
  | some parent =>
    refine Meets.withHandle (hfail _) ?_
    intro payload
    -- the accounting sink carries the lookups; a panic is possible only if callbacks may panic
    have hcalm : (fs.readdirplus ref.record.payload ino parent payload offset caller).Returns
        fun a => E.noPanic → a ≠ .error .panic :=
      Prog.returns_imp fun hnp => (hfs hnp).readdirplus _ _ _ _ _ _
    refine Meets.bind
      (Meets.handle (fun acc : Accounting => lookupTokens n acc.accepted) ?_ hcalm {}) ?_
    · intro i acc
      cases i with
      | fs i =>
        refine Meets.free (g := lookupTokens n acc.accepted) (.fs i) ?_
        intro r
        exact Meets.ret rfl
      | add name id attr nextOffset => exact meets_accounting sink acc name id attr nextOffset
    · rintro ⟨result, acc⟩ g ⟨rfl, hresult⟩
      cases result with
      | ok _ => exact Meets.ret (Or.inl ⟨_, rfl, rfl⟩)
      | error e =>
        cases e with
        | errno e =>
          refine (meets_forgetAll acc.accepted).bind ?_
          rintro _ g rfl
          exact Meets.ret (hfail e)
        | panic =>
          refine Meets.sect (.leak acc.accepted (fun h => hresult h.2 rfl)) (add_zero _).symm ?_
          rintro _ g rfl
          exact Meets.ret (Or.inr ⟨.panic, rfl, rfl⟩)

/-- `create`: the lookup of the entry, or nothing if it fails.  The lookup that `entry_for` has
counted makes `add_open` succeed. -/
lemma meets_create (parent : ℕ) (name : Name) (mode umask : ℕ) (flags : ℤ) (caller : Caller) :
    Meets fs E n 0 (create fs parent name mode umask flags caller)
      fun a g =>
        (∃ e o, a = .ok (e, o) ∧ g = {.lookup n e.reply.ino} ∧ (E.stable → e.Exact)) ∨
        (∃ e, a = .error e ∧ g = 0) ∨ (a = fail .ENOENT ∧ g = {.vanished n}) := by
  refine Meets.callBind _ ?_
  intro result
  refine Meets.onOk (fun e => Or.inr (Or.inl ⟨e, rfl, rfl⟩)) ?_
  rintro ⟨id, opened⟩
  refine (meets_entryFor id caller).bind ?_
  rintro a g (⟨entry, rfl, rfl, rfl, hex⟩ | ⟨e, rfl, rfl⟩ | ⟨rfl, rfl⟩)
  · refine Meets.sect (.addOpenCreated entry.reply.ino) (add_zero _).symm ?_
    rintro live g (⟨rfl, rfl⟩ | ⟨rfl, hdishonest, rfl⟩)
    · refine Meets.sect (.addHandle .file entry.reply.ino opened.handle)
        (f := {.lookup n entry.reply.ino}) (by rw [add_zero, add_comm]) ?_
      rintro fh g rfl
      exact Meets.ret (Or.inl ⟨entry, _, rfl, zero_add _, hex⟩)
    · refine Meets.sect (.leak [entry.reply.ino] (fun h => hdishonest h.1)) (f := 0) (by simp) ?_
      rintro _ g rfl
      refine Meets.free (.discard .file opened.handle) ?_
      intro _
      exact Meets.ret (Or.inr (Or.inl ⟨.errno .ENOENT, rfl, rfl⟩))
  · refine Meets.free (.discard .file opened.handle) ?_
    intro _
    exact Meets.ret (Or.inr (Or.inl ⟨e, rfl, rfl⟩))
  · refine Meets.free (.discard .file opened.handle) ?_
    intro _
    exact Meets.ret (Or.inr (Or.inr ⟨rfl, rfl⟩))

/-! ## Requests -/

/-- A request that is served by a function without tokens and hands out no lookups. -/
lemma Neutral.serve {p : RtProg fs.toFsSig (Fallible α)} (hp : Neutral fs E n p) {req : Request}
    (hreq : ∀ k ino fh caller, req ≠ .release k ino fh caller) {f : α → Reply}
    (hd : ∀ a, delivered (.ok (f a)) = 0) (hex : ∀ a, ExactReply (.ok (f a))) :
    Meets fs E n 0 (p >>= fun r => return r.map f) (Post E n req) := by
  refine Meets.bind hp ?_
  rintro r g rfl
  refine Meets.ret (post_of_neutral hreq ?_ ?_)
  · cases r with
    | error e => rfl
    | ok a => exact hd a
  · cases r with
    | error e => trivial
    | ok a => exact hex a

/-- Every request can be served from its first tokens and leaves what it should. -/
theorem meets_serve (hfs : E.noPanic → fs.NoPanic) (req : Request) :
    Meets fs E n (Init n req) (serve fs req) (Post E n req) := by
  cases req with
  | populate =>
    refine Meets.callBind _ ?_
    intro _
    exact Meets.ret (post_of_neutral (by simp) rfl trivial)
  | forget ino nlookup =>
    refine Meets.sect (.forget ino nlookup) (add_zero _).symm ?_
    rintro _ g rfl
    exact Meets.ret (post_of_neutral (by simp) rfl trivial)
  | statfs caller => exact Neutral.serve (Meets.call _) (by simp) (fun _ => rfl) fun _ => trivial
  | getattr ino fh caller =>
    exact (neutral_getattr ino fh caller).serve (by simp) (fun _ => rfl) fun _ => trivial
  | setattr ino fh set caller =>
    exact (neutral_setattr ino fh set caller).serve (by simp) (fun _ => rfl) fun _ => trivial
  | nodeOp op ino caller =>
    exact (neutral_nodeOp op ino caller).serve (by simp) (fun _ => rfl) fun _ => trivial
  | fileOp op ino fh caller =>
    exact (neutral_fileOp op ino fh caller).serve (by simp) (fun _ => rfl) fun _ => trivial
  | fsyncdir ino fh datasync caller =>
    exact (neutral_fsyncdir ino fh datasync caller).serve (by simp) (fun _ => rfl) fun _ => trivial
  | openNode k ino flags caller =>
    exact (neutral_openNode k ino flags caller).serve (by simp) (fun _ => rfl) fun _ => trivial
  | release k ino fh caller =>
    refine (meets_release k ino fh caller).bind ?_
    intro a g hg
    refine Meets.ret ⟨?_, ?_, ?_⟩
    · cases a <;> rfl
    · cases a <;> trivial
    · rcases hg with ⟨rfl, rfl⟩ | rfl
      · exact Or.inl ⟨rfl, rfl⟩
      · exact Or.inr rfl
  | readdir ino fh offset sink caller =>
    exact (neutral_readdir ino fh offset sink caller).serve (by simp) (fun _ => rfl)
      fun _ => trivial
  | readdirplus ino fh offset sink caller =>
    refine (meets_readdirplus hfs ino fh offset sink caller).bind ?_
    rintro a g (⟨l, rfl, rfl⟩ | ⟨e, rfl, rfl⟩)
    · exact Meets.ret (Or.inl ⟨rfl, fun _ => trivial⟩)
    · exact Meets.ret (post_of_neutral (by simp) rfl trivial)
  | lookup parent name caller =>
    refine Meets.bind (Q := fun a g =>
      (∃ e, a = .ok (some e) ∧ g = {.lookup n e.reply.ino} ∧ (E.stable → e.Exact)) ∨
        ((a = .ok none ∨ ∃ e, a = .error e) ∧ g = 0) ∨
        (a = fail .ENOENT ∧ g = {.vanished n})) ?_ ?_
    · refine Meets.callBind _ ?_
      intro result
      refine Meets.onOk (fun e => Or.inr (Or.inl ⟨Or.inr ⟨e, rfl⟩, rfl⟩)) ?_
      intro found
      cases found with
      | none => exact Meets.ret (Or.inr (Or.inl ⟨Or.inl rfl, rfl⟩))
      | some id =>
        refine (meets_entryFor id caller).bind ?_
        rintro a g (⟨e, rfl, rfl, rfl, hex⟩ | ⟨e, rfl, rfl⟩ | ⟨rfl, rfl⟩)
        · exact Meets.ret (Or.inl ⟨e, rfl, rfl, hex⟩)
        · exact Meets.ret (Or.inr (Or.inl ⟨Or.inr ⟨e, rfl⟩, rfl⟩))
        · exact Meets.ret (Or.inr (Or.inr ⟨rfl, rfl⟩))
    · rintro a g (⟨e, rfl, rfl, hex⟩ | ⟨rfl | ⟨e, rfl⟩, rfl⟩ | ⟨rfl, rfl⟩)
      · exact Meets.ret (Or.inl ⟨rfl, hex⟩)
      · exact Meets.ret (post_of_neutral (by simp) rfl trivial)
      · exact Meets.ret (post_of_neutral (by simp) rfl trivial)
      · exact Meets.ret (Or.inr ⟨rfl, rfl⟩)
  | makeOp op caller =>
    refine Meets.bind (Q := fun a g => ∃ id, EntryPost E n id a g) ?_ ?_
    · refine Meets.callBind _ ?_
      intro result
      refine Meets.onOk (fun e => ⟨0, Or.inr (Or.inl ⟨e, rfl, rfl⟩)⟩) ?_
      intro id
      exact (meets_entryFor id caller).mono fun a g h => ⟨id, h⟩
    · rintro a g ⟨id, h⟩
      exact Meets.ret (h.post (by simp) fun _ => rfl)
  | treeOp op caller =>
    exact Neutral.serve (Meets.call _) (by simp) (fun _ => rfl) fun _ => trivial
  | create parent name mode umask flags caller =>
    refine (meets_create parent name mode umask flags caller).bind ?_
    rintro a g (⟨e, o, rfl, rfl, hex⟩ | ⟨e, rfl, rfl⟩ | ⟨rfl, rfl⟩)
    · exact Meets.ret (Or.inl ⟨rfl, hex⟩)
    · exact Meets.ret (post_of_neutral (by simp) rfl trivial)
    · exact Meets.ret (Or.inr ⟨rfl, rfl⟩)

end TypedFuse
