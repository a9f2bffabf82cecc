import TypedFuse.Path.OneGuard

/-!
# Record locks under the operations lock

`setlk` with `sleep` waits in the inner filesystem until no lock of another owner is in its way, and
the adapter holds a read guard of the operations lock in the meantime.  An owner who asks for the
write guard then waits for a call that waits for the owner's next one.  This is the only cycle:
without it, calls of the adapter get on as long as the clients do not sleep for each other's locks
in a circle.
-/

namespace TypedFuse

open Conc Conc.Service TypedFuse.Runtime

/-- The inner filesystem has record locks: `setlk` with `sleep` waits as long as a lock of another
owner is in its way, all other calls return, and an owner gets and gives up locks by its own `setlk`
only. -/
structure RecordLocks (P : PathFilesystem) where
  /-- A lock of the last owner keeps the first one from a lock on an open file. -/
  InTheWay : P.State → P.Payload .file → ℕ → FileLock → ℕ → Prop
  sleeps : ∀ {s : P.State} {path : Option Path} {handle : P.Payload .file} {owner : ℕ}
    {lock : FileLock} {caller : Caller},
    (∀ ch, P.call (.fileOp (.setlk owner lock true) path handle caller) ch s = none) ↔
      ∃ other, InTheWay s handle owner lock other
  returns : ∀ {call : PathCall P.Payload} {s : P.State},
    (∀ path handle owner lock caller,
      call ≠ .fileOp (.setlk owner lock true) path handle caller) →
    ∃ ch, P.call call ch s ≠ none
  changes : ∀ {call : PathCall P.Payload} {ch : P.Choice} {s s' : P.State} {r : call.Resp}
    {handle : P.Payload .file} {owner other : ℕ} {lock : FileLock},
    P.call call ch s = some (r, s') →
      (∀ lock' sleep path handle' caller,
        call ≠ .fileOp (.setlk other lock' sleep) path handle' caller) →
      (InTheWay s' handle owner lock other ↔ InTheWay s handle owner lock other)

variable {P : PathFilesystem}

/-! ## Who waits -/

/-- A call is about to take its read guard in order to sleep for a record lock. -/
def AsksToRead (c : Config (clients (pathNodeFs P))) (n : ℕ) (handle : P.Payload .file)
    (owner : ℕ) (lock : FileLock) : Prop :=
  ∃ client node caller, c.At n ⟨client, .fileOp (.setlk owner lock true) node handle caller⟩
    (PathInstr.rt .readLock)

/-- A call holds its read guard while it gets, or sleeps for, a record lock. -/
def InSetlk (c : Config (clients (pathNodeFs P))) (n : ℕ) (handle : P.Payload .file)
    (owner : ℕ) (lock : FileLock) : Prop :=
  ∃ client node caller i,
    c.At n ⟨client, .fileOp (.setlk owner lock true) node handle caller⟩ i ∧
      i ≠ PathInstr.rt .readLock ∧ i ≠ PathInstr.rt .readUnlock

/-- A call of a client is about to take the write guard. -/
def AsksToWrite (c : Config (clients (pathNodeFs P))) (m client : ℕ) : Prop :=
  ∃ call, c.At m ⟨client, call⟩ (PathInstr.rt .writeLock)

/-- A call sleeps for a record lock that a lock of `other` keeps it from. -/
def Awaits (L : RecordLocks P) (c : Config (clients (pathNodeFs P))) (n other : ℕ) : Prop :=
  ∃ req path handle owner lock caller,
    c.At n req (PathInstr.rt (.inner (.fileOp (.setlk owner lock true) path handle caller))) ∧
      L.InTheWay c.state.fs.inner handle owner lock other

/-- A client sleeps for a lock of another one. -/
def SleepsFor (L : RecordLocks P) (c : Config (clients (pathNodeFs P))) (client other : ℕ) :
    Prop :=
  ∃ (n : ℕ) (t : Thread (clients (pathNodeFs P))), c.threads[n]? = some t ∧
    t.req.client = client ∧ Awaits L c n other

/-- A call that holds its read guard has to wait for a lock of a client that waits for the write
guard. -/
def Crossed (L : RecordLocks P) (c : Config (clients (pathNodeFs P))) : Prop :=
  ∃ n m handle owner lock other, InSetlk c n handle owner lock ∧ AsksToWrite c m other ∧
    L.InTheWay c.state.fs.inner handle owner lock other

/-- A client locks in its own name. -/
def OwnLocks (_ : Config (clients (pathNodeFs P))) :
    Action (clients (pathNodeFs P)) → Prop
  | .issue req => ∀ owner lock sleep node handle caller,
      req.call = .fileOp (.setlk owner lock sleep) node handle caller → req.client = owner
  | _ => True

/-- Clients with one call at a time that lock in their own names. -/
structure ByTurns (c : Config (clients (pathNodeFs P))) (a : Action (clients (pathNodeFs P))) :
    Prop where
  one : OneEach c a
  own : OwnLocks c a

/-- A client asks for the write guard only while none of its locks is in the way of a call that
holds its read guard, and a call that has to wait for a lock takes its read guard only while the
owner of that lock does not wait for the write guard. -/
def Apart (L : RecordLocks P) (c : Config (clients (pathNodeFs P))) :
    Action (clients (pathNodeFs P)) → Prop
  | .issue req => req.call.Structural → ∀ n handle owner lock, InSetlk c n handle owner lock →
      ¬ L.InTheWay c.state.fs.inner handle owner lock req.client
  | .step n _ => ∀ handle owner lock, AsksToRead c n handle owner lock →
      ∀ m other, AsksToWrite c m other → ¬ L.InTheWay c.state.fs.inner handle owner lock other
  | .answer _ => True

/-- Clients whose calls stay apart. -/
structure Considerate (L : RecordLocks P) (c : Config (clients (pathNodeFs P)))
    (a : Action (clients (pathNodeFs P))) : Prop extends ByTurns c a where
  apart : Apart L c a

/-! ## Considerate clients -/

variable {allow : Config (clients (pathNodeFs P)) → Action (clients (pathNodeFs P)) → Prop}
  {L : RecordLocks P} {c c' : Config (clients (pathNodeFs P))}

/-- Clients lock in their own names. -/
lemma owner_of_run (hr : Run (ByTurns (P := P)) (clientsStart (pathNodeFs P)) c) :
    ∀ {n id : ℕ} {req : ClientCall (pathNodeFs P).toFsSig}
      {ph : Phase (clients (pathNodeFs P))},
      c.threads[n]? = some ⟨id, req, ph⟩ → ∀ owner lock sleep node handle caller,
        req.call = .fileOp (.setlk owner lock sleep) node handle caller → req.client = owner := by
  induction hr with
  | refl =>
    intro n id req ph ht
    simp [clientsStart] at ht
  | tail a _ ha hnext ih =>
    intro n id req ph ht
    cases a with
    | issue req' =>
      obtain ⟨s, _, rfl⟩ := next_issue hnext
      rcases getElem?_issue_cases ht with ht | ⟨_, heq⟩
      · exact ih ht
      · cases heq
        exact ha.own
    | step m ch =>
      obtain ⟨id', req', i, k, r, s, htm, _, rfl⟩ := next_step hnext
      rcases getElem?_set_cases ht with ⟨_, heq⟩ | ⟨_, ht⟩
      · cases heq
        exact ih htm
      · exact ih ht
    | answer m =>
      obtain ⟨id', req', b, htm, rfl⟩ := next_answer hnext
      rcases getElem?_set_cases ht with ⟨_, heq⟩ | ⟨_, ht⟩
      · cases heq
        exact ih htm
      · exact ih ht

/-- A lock gets in, or out of, somebody's way only by a `setlk` of its owner. -/
lemma inTheWay_iff
    (hr : Run (ByTurns (P := P)) (clientsStart (pathNodeFs P)) c) {n id : ℕ}
    {req : ClientCall (pathNodeFs P).toFsSig} {i : RtInstr (PathNodeFs.sig P)}
    {k : i.Resp → RtProg (PathNodeFs.sig P) Unit}
    (ht : c.threads[n]? = some ⟨id, req, .running (.act i k)⟩) {ch : Option P.Choice}
    {r : i.Resp}
    {s : RtState (PathNodeFs.sig P)} (he : c.state.exec id i ch = some (r, s))
    {handle : P.Payload .file} {owner other : ℕ} {lock : FileLock}
    (hclient : req.client ≠ other) :
    L.InTheWay s.fs.inner handle owner lock other ↔
      L.InTheWay c.state.fs.inner handle owner lock other := by
  rcases inner_of_exec he with hsame | ⟨call, ch', a, rfl, hcall⟩
  · rw [hsame]
  · refine L.changes hcall ?_
    rintro lock' sleep path handle' caller rfl
    obtain ⟨node, caller', hreq⟩ := (along_of_run hr ht).fileOp
    exact hclient (owner_of_run hr ht other lock' sleep node handle' caller' hreq)

/-- A call that holds its read guard for a record lock has the inner call still to make. -/
lemma inSetlk_iff (hr : Run allow (clientsStart (pathNodeFs P)) c) {n : ℕ}
    {handle : P.Payload .file} {owner : ℕ} {lock : FileLock} :
    InSetlk c n handle owner lock ↔ ∃ client node caller id p,
      c.threads[n]? =
          some ⟨id, ⟨client, .fileOp (.setlk owner lock true) node handle caller⟩,
            .running p⟩ ∧
        Reading (.setlk owner lock true) handle p := by
  constructor
  · rintro ⟨client, node, caller, i, ⟨id, k, hn⟩, hi, hi'⟩
    exact ⟨client, node, caller, id, _, hn, (along_of_run hr hn).reading hi hi'⟩
  · rintro ⟨client, node, caller, id, p, hn, hreading⟩
    cases p with
    | ret a => exact hreading.elim
    | act i k => exact ⟨client, node, caller, i, ⟨id, k, hn⟩, hreading.ne_lock⟩

/-- A call that sleeps for a record lock holds its read guard. -/
lemma inSetlk_of_at (hr : Run allow (clientsStart (pathNodeFs P)) c) {n : ℕ}
    {req : ClientCall (pathNodeFs P).toFsSig} {path : Option Path} {handle : P.Payload .file}
    {owner : ℕ} {lock : FileLock} {caller : Caller}
    (hn : c.At n req
      (PathInstr.rt (.inner (.fileOp (.setlk owner lock true) path handle caller)))) :
    InSetlk c n handle owner lock := by
  obtain ⟨id, k, ht⟩ := hn
  obtain ⟨client, call⟩ := req
  obtain ⟨node, caller', rfl⟩ := (along_of_run hr ht).fileOp
  exact ⟨client, node, caller', _, ⟨id, k, ht⟩, nofun, nofun⟩

/-- Considerate clients do not cross. -/
lemma not_crossed (hr : Run (Considerate L) (clientsStart (pathNodeFs P)) c) :
    ¬ Crossed L c := by
  induction hr with
  | refl =>
    rintro ⟨n, m, handle, owner, lock, other, ⟨_, _, _, _, ⟨_, _, ht⟩, _⟩, _⟩
    simp [clientsStart] at ht
  | @tail c c' a hr ha hnext ih =>
    have hturns : Run (ByTurns (P := P)) (clientsStart (pathNodeFs P)) c :=
      hr.mono fun _ _ h => h.toByTurns
    rintro ⟨n, m, handle, owner, lock, other, hin, ⟨call, id', k', hm⟩, hway⟩
    obtain ⟨client, node, caller, id, p, hn, hreading⟩ :=
      (inSetlk_iff (Run.tail a hr ha hnext)).mp hin
    cases a with
    | issue req =>
      obtain ⟨s, hs, rfl⟩ := next_issue hnext
      obtain rfl := Option.some.inj hs
      rcases getElem?_issue_cases hn with hn | ⟨_, heq⟩
      · have hin₀ : InSetlk c n handle owner lock :=
          (inSetlk_iff hr).mpr ⟨client, node, caller, id, p, hn, hreading⟩
        rcases getElem?_issue_cases hm with hm | ⟨_, heq⟩
        · exact ih ⟨n, m, handle, owner, lock, other, hin₀, ⟨call, id', k', hm⟩, hway⟩
        · -- the new call asks for the write guard
          obtain ⟨rfl, hp⟩ := start_at heq
          exact ha.apart (Along.structural (Or.inl hp)) n handle owner lock hin₀ hway
      · -- the new call has not taken its read guard
        obtain ⟨_, rfl⟩ := start_at heq
        obtain ⟨k'', hk'', _⟩ := callback_fileOp (.setlk owner lock true) node handle caller
        rw [hk''] at hreading
        exact hreading.ne_lock.1 rfl
    | step l ch =>
      obtain ⟨id₀, req, i₀, k₀, r, s, hl, he, rfl⟩ := next_step hnext
      rcases getElem?_set_cases hm with ⟨_, heq⟩ | ⟨hml, hm⟩
      · -- only at its start a call asks for the write guard
        injection heq with _ _ hphase
        injection hphase with hp
        have hrest := (along_of_run hr hl).step r
        rw [← hp] at hrest
        exact hrest.ne_writeLock rfl
      have hask : AsksToWrite c m other := ⟨call, id', k', hm⟩
      have hclient : req.client ≠ other := fun h =>
        hml (single_of_run (fun _ _ h => h.one) hturns hm hl h.symm)
      have hway₀ := (inTheWay_iff hturns hl he hclient).mp hway
      rcases getElem?_set_cases hn with ⟨rfl, heq⟩ | ⟨_, hn⟩
      · injection heq with _ hreq hphase
        injection hphase with hp
        subst hreq
        by_cases hread : i₀ = PathInstr.rt .readLock
        · subst hread
          exact ha.apart handle owner lock ⟨client, node, caller, id₀, k₀, hl⟩ m other hask
            hway₀
        · refine ih ⟨n, m, handle, owner, lock, other,
            ⟨client, node, caller, i₀, ⟨id₀, k₀, hl⟩, hread, ?_⟩, hask, hway₀⟩
          rintro rfl
          rw [hp, (along_of_run hr hl).readUnlock r] at hreading
          exact hreading
      · exact ih ⟨n, m, handle, owner, lock, other,
          (inSetlk_iff hr).mpr ⟨client, node, caller, id, p, hn, hreading⟩, hask, hway₀⟩
    | answer l =>
      obtain ⟨id₀, req, b, hl, rfl⟩ := next_answer hnext
      rcases getElem?_set_cases hn with ⟨_, heq⟩ | ⟨_, hn⟩
      · cases heq
      rcases getElem?_set_cases hm with ⟨_, heq⟩ | ⟨_, hm⟩
      · cases heq
      exact ih ⟨n, m, handle, owner, lock, other,
        (inSetlk_iff hr).mpr ⟨client, node, caller, id, p, hn, hreading⟩,
        ⟨call, id', k', hm⟩, hway⟩

/-- Clients that do not stay apart cross. -/
theorem crossed_of_not_apart (hr : Run allow (clientsStart (pathNodeFs P)) c)
    {a : Action (clients (pathNodeFs P))} (hnext : c.next a = some c') (ha : ¬ Apart L c a) :
    Crossed L c' := by
  cases a with
  | issue req =>
    simp only [Apart, not_forall, not_not] at ha
    obtain ⟨hs, n, handle, owner, lock, ⟨client, node, caller, i, ⟨id, k, hn⟩, hi, hi'⟩,
      hway⟩ := ha
    obtain ⟨s, hissue, rfl⟩ := next_issue hnext
    obtain rfl := Option.some.inj hissue
    obtain ⟨hlt, _⟩ := List.getElem?_eq_some_iff.mp hn
    obtain ⟨k', hk', _⟩ := callback_structural hs
    refine ⟨n, c.threads.length, handle, owner, lock, req.client,
      ⟨client, node, caller, i, ⟨id, k, ?_⟩, hi, hi'⟩,
      ⟨req.call, c.threads.length, k', ?_⟩, hway⟩
    · exact (List.getElem?_append_left hlt).trans hn
    · refine (List.getElem?_concat_length).trans (congrArg some ?_)
      exact congrArg (fun p => (⟨_, req, .running p⟩ : Thread (clients (pathNodeFs P)))) hk'
  | step n ch =>
    simp only [Apart, not_forall, not_not] at ha
    obtain ⟨handle, owner, lock, ⟨client, node, caller, id, k, hn⟩, m, other,
      ⟨call, id', k', hm⟩, hway⟩ := ha
    obtain ⟨id₀, req, i₀, k₀, r, s, hn₀, he, rfl⟩ := next_step hnext
    cases hn.symm.trans hn₀
    have hne : n ≠ m := by
      rintro rfl
      cases hn.symm.trans hm
    obtain ⟨k'', hk'', _⟩ := callback_fileOp (.setlk owner lock true) node handle caller
    have hk : k r = .act (PathInstr.rt (.nodeId node.key)) k'' := by
      rcases along_of_run hr hn with h | h | h | h
      · cases h.trans hk''
        rfl
      · exact absurd rfl h.ne_lock.1
      all_goals cases h
    have hsame : s.fs.inner = c.state.fs.inner := by
      have he' : RtState.exec c.state id (PathInstr.rt .readLock) ch = some (r, s) := he
      rcases inner_of_exec he' with hsame | ⟨_, _, _, h, _⟩
      · exact hsame
      · cases h
    refine ⟨n, m, handle, owner, lock, other,
      ⟨client, node, caller, PathInstr.rt (.nodeId node.key), ⟨id, k'', ?_⟩, nofun, nofun⟩,
      ⟨call, id', k', ?_⟩, hsame ▸ hway⟩
    · rw [← hk]
      exact List.getElem?_set_self (List.getElem?_eq_some_iff.mp hn).1
    · exact (List.getElem?_set_ne hne).trans hm
  | answer n => exact absurd trivial ha

/-- A call that is in `setlk` holds a read guard. -/
lemma readers_pos (hr : Run allow (clientsStart (pathNodeFs P)) c) {n : ℕ}
    {handle : P.Payload .file} {owner : ℕ} {lock : FileLock}
    (hin : InSetlk c n handle owner lock) : 0 < c.state.fs.readers := by
  obtain ⟨client, node, caller, id, p, hn, hreading⟩ := (inSetlk_iff hr).mp hin
  obtain ⟨gs, hhas, hinv⟩ := clientDiscipline_kept pathDiscipline_respected hr
  obtain ⟨g, f, ⟨h, rfl, hkeeps⟩, hsum, _, _⟩ := Logic.exists_frame hhas hn
  have hheld : h.own = ⟨.read, false⟩ := hreading.held hkeeps
  have hcons : ∀ {s : PathState P} {x : RtHeld PathHeld} {M : Multiset (RtHeld PathHeld)},
      PathHeld.Inv s ((x ::ₘ M).map RtHeld.own) → x.own = ⟨.read, false⟩ →
      0 < s.readers := by
    intro s x M hinv hx
    rw [Multiset.map_cons] at hinv
    exact hinv.readers_of (by rw [hx])
  rw [hsum.trans (Multiset.singleton_add h f)] at hinv
  exact hcons hinv.2 hheld

/-- A call that sleeps for a record lock cannot move. -/
lemma Awaits.stays {n other : ℕ} (h : Awaits L c n other) : ¬ c.Moves n := by
  obtain ⟨req, path, handle, owner, lock, caller, ⟨id, k, hn⟩, hway⟩ := h
  rintro (⟨ch, c', hnext⟩ | ⟨c', hnext⟩)
  · obtain ⟨_, _, _, _, r, s, hn', he, _⟩ := next_step hnext
    cases hn.symm.trans hn'
    have he' : RtState.exec c.state id (PathInstr.rt
      (.inner (.fileOp (.setlk owner lock true) path handle caller))) ch = some (r, s) := he
    obtain ⟨ch', _, hexec, _⟩ := exec_own he'
    obtain ⟨_, hcall, _⟩ := Option.map_eq_some_iff.mp hexec
    cases hcall.symm.trans (L.sleeps.mpr ⟨other, hway⟩ ch')
  · obtain ⟨_, _, _, hn', _⟩ := next_answer hnext
    cases hn.symm.trans hn'

/-- Nor can a call that asks for the write guard in the meantime. -/
lemma AsksToWrite.stays (hr : Run allow (clientsStart (pathNodeFs P)) c) {m client n : ℕ}
    {handle : P.Payload .file} {owner : ℕ} {lock : FileLock} (hin : InSetlk c n handle owner lock)
    (h : AsksToWrite c m client) : ¬ c.Moves m := by
  obtain ⟨call, id, k, hm⟩ := h
  rintro (⟨ch, c', hnext⟩ | ⟨c', hnext⟩)
  · obtain ⟨_, _, _, _, r, s, hm', he, _⟩ := next_step hnext
    cases hm.symm.trans hm'
    have he' : RtState.exec c.state id (PathInstr.rt .writeLock) ch = some (r, s) := he
    obtain ⟨_, _, hexec, _⟩ := exec_own he'
    cases hexec.symm.trans (if_pos (Or.inr (readers_pos hr hin)))
  · obtain ⟨_, _, _, hm', _⟩ := next_answer hnext
    cases hm.symm.trans hm'

/-- A client that asks for the write guard is busy. -/
lemma AsksToWrite.busy {m client : ℕ} (h : AsksToWrite c m client) : Busy c client := by
  obtain ⟨call, id, k, hm⟩ := h
  exact ⟨m, _, _, hm, rfl, rfl⟩

/-- It has crossed a call that sleeps for its lock. -/
lemma Awaits.crossed (hr : Run allow (clientsStart (pathNodeFs P)) c) {n m other : ℕ}
    (hn : Awaits L c n other) (hm : AsksToWrite c m other) : Crossed L c := by
  obtain ⟨req, path, handle, owner, lock, caller, hat, hway⟩ := hn
  exact ⟨n, m, handle, owner, lock, other, inSetlk_of_at hr hat, hm, hway⟩

/-- With only two calls under way that have crossed, nothing goes on. -/
lemma deadlocked (hr : Run allow (clientsStart (pathNodeFs P)) c) {n m client other : ℕ}
    (hn : Awaits L c n other) (hm : AsksToWrite c m client)
    (honly : ∀ {l id : ℕ} {req : ClientCall (pathNodeFs P).toFsSig}
      {p : RtProg (PathNodeFs.sig P) Unit},
      c.threads[l]? = some ⟨id, req, .running p⟩ → l = n ∨ l = m) (l : ℕ) :
    ¬ c.Moves l ∧ ¬ CallHeldUp (fun s _ i => PathStalls P s i) c l := by
  have hstays : l = n ∨ l = m → ¬ c.Moves l := by
    rintro (rfl | rfl)
    · exact hn.stays
    · obtain ⟨req, path, handle, owner, lock, caller, hat, _⟩ := hn
      exact hm.stays hr (inSetlk_of_at hr hat)
  constructor
  · intro hmoves
    refine hstays ?_ hmoves
    rcases hmoves with ⟨ch, c', hnext⟩ | ⟨c', hnext⟩
    · obtain ⟨_, _, _, _, _, _, hl, _⟩ := next_step hnext
      exact honly hl
    · obtain ⟨_, _, _, hl, _⟩ := next_answer hnext
      exact honly hl
  · rintro ⟨req, i, ⟨id, k, hl⟩, hheld⟩
    rcases honly hl with rfl | rfl
    · obtain ⟨req', path, handle, owner, lock, caller, ⟨id', k', hn⟩, _⟩ := hn
      cases hl.symm.trans hn
      exact hheld.elim (fun h => h) fun h => h
    · obtain ⟨call, id', k', hm⟩ := hm
      cases hl.symm.trans hm
      exact hheld.elim (fun h => h) fun h => h

/-- Clients that have crossed stay so for ever. -/
lemma crossed_next (hr : Run (ByTurns (P := P)) (clientsStart (pathNodeFs P)) c)
    (hcrossed : Crossed L c) {a : Action (clients (pathNodeFs P))} (ha : ByTurns c a)
    (hnext : c.next a = some c') : Crossed L c' := by
  obtain ⟨n, m, handle, owner, lock, other, hin, ⟨call, id', k', hm⟩, hway⟩ := hcrossed
  obtain ⟨client, node, caller, id, p, hn, hreading⟩ := (inSetlk_iff hr).mp hin
  have hr' := Run.tail a hr ha hnext
  have hstay : (c'.threads[n]? = c.threads[n]?) → (c'.threads[m]? = c.threads[m]?) →
      L.InTheWay c'.state.fs.inner handle owner lock other → Crossed L c' := by
    intro hn' hm' hway'
    exact ⟨n, m, handle, owner, lock, other,
      (inSetlk_iff hr').mpr ⟨client, node, caller, id, p, hn'.trans hn, hreading⟩,
      ⟨call, id', k', hm'.trans hm⟩, hway'⟩
  cases a with
  | issue req =>
    obtain ⟨s, hs, rfl⟩ := next_issue hnext
    obtain rfl := Option.some.inj hs
    exact hstay (List.getElem?_append_left (List.getElem?_eq_some_iff.mp hn).1)
      (List.getElem?_append_left (List.getElem?_eq_some_iff.mp hm).1) hway
  | answer l =>
    obtain ⟨id₀, req, b, hl, rfl⟩ := next_answer hnext
    have hln : l ≠ n := by
      rintro rfl
      cases hl.symm.trans hn
      exact hreading
    have hlm : l ≠ m := by
      rintro rfl
      cases hl.symm.trans hm
    exact hstay (List.getElem?_set_ne hln) (List.getElem?_set_ne hlm) hway
  | step l ch =>
    have hmoves : c.Moves l := Or.inl ⟨ch, c', hnext⟩
    have hlm : l ≠ m := by
      -- the write guard is not free
      rintro rfl
      exact AsksToWrite.stays hr hin ⟨call, id', k', hm⟩ hmoves
    obtain ⟨id₀, req, i₀, k₀, r, s, hl, he, rfl⟩ := next_step hnext
    have hclient : req.client ≠ other := fun h =>
      hlm (single_of_run (fun _ _ h => h.one) hr hl hm h)
    have hway' := (inTheWay_iff hr hl he hclient).mpr hway
    by_cases hln : l = n
    · subst hln
      cases hl.symm.trans hn
      rcases hreading with ⟨_, hk⟩ | ⟨⟨path, caller', rfl⟩, _⟩
      · refine ⟨l, m, handle, owner, lock, other, (inSetlk_iff hr').mpr
          ⟨client, node, caller, id, k₀ r, ?_, hk r⟩, ⟨call, id', k', ?_⟩, hway'⟩
        · exact List.getElem?_set_self (List.getElem?_eq_some_iff.mp hn).1
        · exact (List.getElem?_set_ne hlm).trans hm
      · -- the inner call has to wait
        exact absurd hmoves (Awaits.stays (L := L)
          ⟨_, path, handle, owner, lock, caller', ⟨id, k₀, hn⟩, hway⟩)
    · exact hstay (List.getElem?_set_ne hln) (List.getElem?_set_ne hlm) hway'

/-- Clients cross exactly if they do not stay apart. -/
lemma not_crossed_iff (hr : Run (ByTurns (P := P)) (clientsStart (pathNodeFs P)) c) :
    ¬ Crossed L c ↔ Run (Considerate L) (clientsStart (pathNodeFs P)) c := by
  refine ⟨?_, not_crossed⟩
  induction hr with
  | refl => exact fun _ => .refl
  | tail a hr ha hnext ih =>
    intro hnone
    have hbefore := ih fun h => hnone (crossed_next hr h ha hnext)
    exact .tail a hbefore
      ⟨ha, by_contra fun h => hnone (crossed_of_not_apart hr hnext h)⟩ hnext

/-! ## Somebody goes on -/

/-- A chain through finitely many things that never comes back ends. -/
lemma exists_last {A : Type} {r : A → A → Prop} (hfinite : {a | ∃ b, r a b}.Finite)
    (hacyclic : ∀ a, ¬ Relation.TransGen r a a) {a b : A} (h : r a b) :
    ∃ a b, r a b ∧ ∀ d, ¬ r b d := by
  have hfin : Finite {a // ∃ b, r a b} := hfinite.to_subtype
  let after : {a // ∃ b, r a b} → {a // ∃ b, r a b} → Prop :=
    fun x y => Relation.TransGen r y.1 x.1
  have htrans : IsTrans _ after := ⟨fun _ _ _ hxy hyz => hyz.trans hxy⟩
  have hirrefl : Std.Irrefl after := ⟨fun x hx => hacyclic x.1 hx⟩
  obtain ⟨⟨x, y, hxy⟩, _, hmin⟩ :=
    (Finite.wellFounded_of_trans_of_irrefl after).has_min Set.univ ⟨⟨a, b, h⟩, trivial⟩
  exact ⟨x, y, hxy, fun d hd => hmin ⟨y, d, hd⟩ trivial (.single hxy)⟩

/-- The waits of the calls of the adapter for each other. -/
abbrev ClientWaits (P : PathFilesystem) (c : Config (clients (pathNodeFs P))) (n m : ℕ) : Prop :=
  (clientDiscipline (pathNodeFs P) (pathDiscipline P)).WaitsFor
    (RtHeld.Blocks fun h i => PathHeld.blocks h (lockStep i) = true) c n m

/-- A call under way waits, possibly through others, for one that can move, that is held up, or that
sleeps for a record lock. -/
lemma exists_sleeper (L : RecordLocks P) (hr : Run allow (clientsStart (pathNodeFs P)) c)
    {n id : ℕ} {req : ClientCall (pathNodeFs P).toFsSig} {p : RtProg (PathNodeFs.sig P) Unit}
    (ht : c.threads[n]? = some ⟨id, req, .running p⟩) :
    ∃ m, Relation.ReflTransGen (ClientWaits P c) n m ∧ (c.Moves m ∨
      CallHeldUp (fun s _ i => PathStalls P s i) c m ∨ ∃ other, Awaits L c m other) := by
  have hstatfs : ∃ ch, P.call (.statfs Path.root {}) ch P.init ≠ none := L.returns (by simp)
  obtain ⟨ch, _⟩ := hstatfs
  have hmover : ∃ m, Relation.ReflTransGen (ClientWaits P c) n m ∧ (c.Moves m ∨
      CallHeldUp (fun (s : RtState (PathNodeFs.sig P)) _ i => PathStalls P s i ∨
        ∃ j : PathInstr P, i = .own j ∧ s.fs.InnerWaits j) c m) :=
    clients_exists_mover pathDiscipline_respected pathDiscipline_ordered hr
      (fun hinv hallowed hwait => path_waits ch hinv hallowed hwait) ht
  obtain ⟨m, hchain, hm⟩ := hmover
  refine ⟨m, hchain, ?_⟩
  rcases hm with hmoves | ⟨req', i, hat, hex | hstalls | ⟨j, rfl, hinner⟩⟩
  · exact Or.inl hmoves
  · exact Or.inr (Or.inl ⟨req', i, hat, Or.inl hex⟩)
  · exact Or.inr (Or.inl ⟨req', i, hat, Or.inr hstalls⟩)
  · cases j with
    | inner call =>
      by_cases hcall : ∃ path handle owner lock caller,
          call = .fileOp (.setlk owner lock true) path handle caller
      · obtain ⟨path, handle, owner, lock, caller, rfl⟩ := hcall
        obtain ⟨other, hway⟩ := L.sleeps.mp hinner
        exact Or.inr (Or.inr ⟨other, req', path, handle, owner, lock, caller, hat, hway⟩)
      · simp only [not_exists] at hcall
        obtain ⟨ch', hch'⟩ := L.returns (s := c.state.fs.inner) hcall
        exact absurd (hinner ch') hch'
    | _ => exact hinner.elim

/-- Who waits, possibly through others, for a call that holds a read guard is about to take the
write guard. -/
lemma asksToWrite_of_waits (hr : Run allow (clientsStart (pathNodeFs P)) c) {n x m : ℕ}
    (hchain : Relation.ReflTransGen (ClientWaits P c) n x) (hlast : ClientWaits P c x m)
    {handle : P.Payload .file} {owner : ℕ} {lock : FileLock} (hm : InSetlk c m handle owner lock)
    {t : Thread (clients (pathNodeFs P))} (ht : c.threads[n]? = some t) :
    AsksToWrite c n t.req.client := by
  obtain ⟨req, i, t', h, hx, ht', hhas, hblocks⟩ := hlast
  obtain ⟨client, node, caller, i', ⟨id, k, hm⟩, hi, hi'⟩ := hm
  cases hm.symm.trans ht'
  have hheld : h.own = ⟨.read, false⟩ := ((along_of_run hr hm).reading hi hi').held hhas
  obtain ⟨j, rfl⟩ := callback_of_at hr hx
  have hwrite : lockStep j = .writeLock := by
    have hblocks' : PathHeld.blocks h.own (lockStep j) = true := hblocks
    rw [hheld] at hblocks'
    revert hblocks'
    cases lockStep j <;> decide
  have hnx : n = x := by
    by_contra hne
    rcases Relation.reflTransGen_iff_eq_or_transGen.mp hchain with heq | htrans
    · exact hne heq.symm
    · obtain ⟨req₁, i₁, req₂, i₂, hn₁, hx₂, hlt⟩ :=
        (clientDiscipline_ordered pathDiscipline_ordered).level_lt_of_transGen htrans
      obtain ⟨j₁, rfl⟩ := callback_of_at hr hn₁
      obtain ⟨_, _, hx⟩ := hx
      obtain ⟨_, _, hx₂⟩ := hx₂
      cases hx.symm.trans hx₂
      have hlow : (lockStep j).level = 0 := by rw [hwrite]; rfl
      change (lockStep j₁).level + 1 < (lockStep j).level + 1 at hlt
      omega
  subst hnx
  obtain ⟨id', k', hx⟩ := hx
  cases ht.symm.trans hx
  have hj : j = .own PathInstr.writeLock := by
    cases j with
    | own i =>
      cases i with
      | writeLock => rfl
      | _ => cases hwrite
    | _ => cases hwrite
  subst hj
  exact ⟨req.call, id', k', hx⟩

/-- Considerate clients that do not sleep for each other's locks in a circle: as long as a call is
under way, a call can take a step, is held up by a path that does not end or a number that has run
out, or sleeps for a lock of a client whose turn it is. -/
theorem considerate_moves (hr : Run (Considerate L) (clientsStart (pathNodeFs P)) c)
    (hacyclic : ∀ client, ¬ Relation.TransGen (SleepsFor L c) client client) {client : ℕ}
    (hbusy : Busy c client) :
    ∃ m, c.Moves m ∨ CallHeldUp (fun s _ i => PathStalls P s i) c m ∨
      ∃ other, Awaits L c m other ∧ ¬ Busy c other := by
  by_contra hnone
  simp only [not_exists, not_or, not_and, not_not] at hnone
  -- a call under way waits for one that sleeps
  have hsleeper : ∀ {other : ℕ}, Busy c other → ∃ n t m last, c.threads[n]? = some t ∧
      t.req.client = other ∧ Relation.ReflTransGen (ClientWaits P c) n m ∧
        Awaits L c m last := by
    rintro other ⟨n, ⟨id, req, phase⟩, p, ht, rfl, rfl⟩
    obtain ⟨m, hchain, hm⟩ := exists_sleeper L hr ht
    obtain ⟨hmoves, hheld, _⟩ := hnone m
    obtain ⟨last, hlast⟩ := (hm.resolve_left hmoves).resolve_left hheld
    exact ⟨n, _, m, last, ht, rfl, hchain, hlast⟩
  -- the owner of a lock that a call sleeps for sleeps itself
  have hnext : ∀ {m other : ℕ}, Awaits L c m other → ∃ last, SleepsFor L c other last := by
    intro m other hm
    obtain ⟨n, t, m', last, ht, hclient, hchain, hlast⟩ := hsleeper ((hnone m).2.2 other hm)
    rcases hchain.cases_tail with heq | ⟨x, hchain, hwaits⟩
    · subst heq
      exact ⟨last, m', t, ht, hclient, hlast⟩
    · obtain ⟨req', path', handle', owner', lock', caller', hat', _⟩ := hlast
      have hask := asksToWrite_of_waits hr hchain hwaits (inSetlk_of_at hr hat') ht
      obtain ⟨req, path, handle, owner, lock, caller, hat, hway⟩ := hm
      exact absurd
        ⟨m, n, handle, owner, lock, other, inSetlk_of_at hr hat, hclient ▸ hask, hway⟩
        (not_crossed hr)
  have hfinite : {a | ∃ b, SleepsFor L c a b}.Finite := by
    refine (c.threads.map fun t => t.req.client).toFinset.finite_toSet.subset ?_
    rintro a ⟨b, n, t, ht, rfl, _⟩
    exact List.mem_toFinset.mpr (List.mem_map.mpr ⟨t, List.mem_of_getElem? ht, rfl⟩)
  obtain ⟨n, t, m, last, _, _, _, hlast⟩ := hsleeper hbusy
  obtain ⟨b, hb⟩ := hnext hlast
  obtain ⟨x, y, ⟨l, _, _, _, hl⟩, hend⟩ := exists_last hfinite hacyclic hb
  obtain ⟨d, hd⟩ := hnext hl
  exact hend d hd

/-! ## One lock -/

namespace LockSample

/-- An owner asks for the lock, or for giving it up. -/
def setlk (owner : ℕ) (lock : FileLock) (sleep : Bool) (holder : Option ℕ) :
    Option (Fallible Value × Option ℕ) :=
  if lock.kind = .unlock then some (.ok .unit, if holder = some owner then none else holder)
  else if holder = none ∨ holder = some owner then some (.ok .unit, some owner)
  else if sleep then none
  else some (fail .EACCES, holder)

/-- The lock stays with another owner. -/
lemma setlk_other {owner other : ℕ} (hne : owner ≠ other) {lock : FileLock} {sleep : Bool}
    {holder holder' : Option ℕ} {r : Fallible Value}
    (h : setlk owner lock sleep holder = some (r, holder')) :
    holder' = some other ↔ holder = some other := by
  unfold setlk at h
  split_ifs at h with hunlock hown hfree
  all_goals obtain ⟨_, rfl⟩ := Prod.mk.inj (Option.some.inj h)
  · simp [hown, hne]
  · exact Iff.rfl
  · rcases hfree with rfl | rfl
    · simp [hne]
    · exact Iff.rfl
  · exact Iff.rfl

/-- A filesystem with a single exclusive record lock, and agreeable otherwise. -/
def inner : PathFilesystem where
  Payload := fun _ => Unit
  State := Option ℕ
  Choice := PathSample.Entries
  init := none
  call := fun c e s =>
    match c with
    | .fileOp (.setlk owner lock sleep) _ _ _ => setlk owner lock sleep s
    | c => some (PathSample.answer e c, s)

/-- Its lock is in the way of everybody else who asks for it. -/
def locks : RecordLocks inner where
  InTheWay := fun s _ owner lock other =>
    lock.kind ≠ .unlock ∧ s = some other ∧ other ≠ owner
  sleeps := by
    intro s path handle owner lock caller
    change (∀ _, setlk owner lock true s = none) ↔ _
    unfold setlk
    constructor
    · intro h
      have hnone := h {}
      split at hnone
      · cases hnone
      · next hkind =>
        split at hnone
        · cases hnone
        · next hholder =>
          cases s with
          | none => exact absurd (Or.inl rfl) hholder
          | some other => exact ⟨other, hkind, rfl, fun h => hholder (Or.inr (by rw [h]))⟩
    · rintro ⟨other, hkind, rfl, hne⟩ _
      rw [if_neg hkind, if_neg (by simp [hne]), if_pos rfl]
  returns := by
    intro call s hcall
    refine ⟨{}, ?_⟩
    cases call with
    | fileOp op path handle caller =>
      cases op with
      | setlk owner lock sleep =>
        cases sleep with
        | true => exact absurd rfl (hcall path handle owner lock caller)
        | false =>
          change setlk owner lock false s ≠ none
          unfold setlk
          split
          · exact Option.some_ne_none _
          · split <;> exact Option.some_ne_none _
      | _ => exact Option.some_ne_none _
    | _ => exact Option.some_ne_none _
  changes := by
    intro call ch s s' r handle owner other lock he hcall
    cases call with
    | fileOp op path handle' caller =>
      cases op with
      | setlk owner' lock' sleep =>
        have hne : owner' ≠ other := fun h => hcall lock' sleep path handle' caller (by rw [h])
        exact and_congr_right fun _ => and_congr_left fun _ => setlk_other hne he
      | _ =>
        obtain ⟨_, rfl⟩ := Prod.mk.inj (Option.some.inj he)
        exact Iff.rfl
    | _ =>
      obtain ⟨_, rfl⟩ := Prod.mk.inj (Option.some.inj he)
      exact Iff.rfl

/-- The adapter over it. -/
abbrev fs : NodeFs := pathNodeFs inner

/-- The configuration after a list of actions that pass a check. -/
def after (check : Config (clients fs) → Action (clients fs) → Bool)
    (as : List (Action (clients fs))) : Config (clients fs) :=
  ((clientsStart fs).runs check as).getD (clientsStart fs)

/-- A list of actions that passes a check leads to a reachable configuration. -/
lemma run_after {allow : Config (clients fs) → Action (clients fs) → Prop}
    {check : Config (clients fs) → Action (clients fs) → Bool}
    (hcheck : ∀ c a, check c a = true → allow c a) (as : List (Action (clients fs)))
    (h : ((clientsStart fs).runs check as).isSome = true) :
    Run allow (clientsStart fs) (after check as) := by
  obtain ⟨c, hc⟩ := Option.isSome_iff_exists.mp h
  unfold after
  rw [hc]
  exact run_of_runs hcheck hc

/-- The check behind `ByTurns`. -/
def turnsCheck (c : Config (clients fs)) : Action (clients fs) → Bool
  | .issue req =>
    (c.threads.all fun t =>
      match t.phase with
      | .done _ => true
      | .running _ => decide (t.req.client ≠ req.client)) &&
    match req.call with
    | .fileOp (.setlk owner _ _) _ _ _ => decide (req.client = owner)
    | _ => true
  | _ => true

lemma byTurns_of_check (c : Config (clients fs)) (a : Action (clients fs))
    (h : turnsCheck c a = true) : ByTurns c a := by
  cases a with
  | issue req =>
    obtain ⟨hall, hown⟩ := Bool.and_eq_true_iff.mp h
    constructor
    · intro t ht hclient
      have hdone := List.all_eq_true.mp hall t ht
      cases hp : t.phase with
      | done a => exact ⟨a, rfl⟩
      | running p =>
        rw [hp] at hdone
        exact absurd hclient (of_decide_eq_true hdone)
    · intro owner lock sleep node handle caller hcall
      rw [hcall] at hown
      exact of_decide_eq_true hown
  | step n ch => exact ⟨trivial, trivial⟩
  | answer n => exact ⟨trivial, trivial⟩

/-- The owner of the lock. -/
def holder (c : Config (clients fs)) : Option ℕ :=
  c.state.fs.inner

/-- The check behind `Considerate`. -/
def considerateCheck (c : Config (clients fs)) : Action (clients fs) → Bool
  | .issue req =>
    turnsCheck c (.issue req) &&
      match req.call with
      | .fileOp _ _ _ _ => true
      | _ => decide (holder c ≠ some req.client)
  | .step n _ =>
    (match c.threads[n]? with
      | some ⟨_, ⟨_, .fileOp (.setlk _ _ true) _ _ _⟩, _⟩ => false
      | _ => true) ||
      c.threads.all fun t =>
        match t.phase with
        | .done _ => true
        | .running _ => decide (holder c ≠ some t.req.client)
  | .answer _ => true

lemma considerate_of_check (c : Config (clients fs)) (a : Action (clients fs))
    (h : considerateCheck c a = true) : Considerate locks c a := by
  cases a with
  | issue req =>
    obtain ⟨hturns, hholder⟩ := Bool.and_eq_true_iff.mp h
    refine ⟨byTurns_of_check c _ hturns, ?_⟩
    intro hs n handle owner lock _ hway
    obtain ⟨client, call⟩ := req
    cases call with
    | fileOp => exact hs
    | _ => exact of_decide_eq_true hholder hway.2.1
  | step n ch =>
    refine ⟨⟨trivial, trivial⟩, ?_⟩
    rintro handle owner lock ⟨client, node, caller, id, k, hn⟩ m other
      ⟨call, id', k', hm⟩ ⟨_, hholder, _⟩
    simp only [considerateCheck, hn, Bool.false_or] at h
    have hclient := List.all_eq_true.mp h _ (List.mem_of_getElem? hm)
    exact of_decide_eq_true hclient hholder
  | answer n => exact ⟨⟨trivial, trivial⟩, trivial⟩

/-- Who sleeps for another client waits for the holder of the lock. -/
lemma sleepsFor_holder {c : Config (clients fs)}
    (hr : Run (ByTurns (P := inner)) (clientsStart fs) c) {client other : ℕ}
    (h : SleepsFor locks c client other) : c.state.fs.inner = some other ∧ other ≠ client := by
  obtain ⟨n, t, ht, rfl, req, path, handle, owner, lock, caller, ⟨id, k, hn⟩, hway⟩ := h
  cases ht.symm.trans hn
  obtain ⟨node, caller', hreq⟩ := (along_of_run hr hn).fileOp
  obtain rfl := owner_of_run hr hn owner lock true node handle caller' hreq
  exact hway.2

/-- With one lock nobody sleeps in a circle. -/
lemma sleepsFor_acyclic {c : Config (clients fs)}
    (hr : Run (ByTurns (P := inner)) (clientsStart fs) c) (client : ℕ) :
    ¬ Relation.TransGen (SleepsFor locks c) client client := by
  intro h
  obtain ⟨other, hfirst, _⟩ := Relation.TransGen.head'_iff.mp h
  obtain ⟨last, _, hlast⟩ := Relation.TransGen.tail'_iff.mp h
  obtain ⟨hother, hne⟩ := sleepsFor_holder hr hfirst
  obtain ⟨hclient, _⟩ := sleepsFor_holder hr hlast
  exact hne (Option.some.inj (hother.symm.trans hclient))

/-- Who is slept for holds the lock. -/
lemma holder_of_awaits {c : Config (clients fs)} {n other : ℕ} (h : Awaits locks c n other) :
    holder c = some other := by
  obtain ⟨_, _, _, _, _, _, _, _, hholder, _⟩ := h
  exact hholder

/-- Whether a call sleeps for the lock of `other`. -/
def awaitsCheck (c : Config (clients fs)) (n other : ℕ) : Bool :=
  match c.threads[n]? with
  | some ⟨_, _, .running (.act (.fs (.own i)) _)⟩ =>
    match (i : PathInstr inner) with
    | .inner (.fileOp (.setlk owner lock true) _ _ _) =>
      decide (lock.kind ≠ .unlock) && decide (holder c = some other) && decide (other ≠ owner)
    | _ => false
  | _ => false

lemma awaits_of_check {c : Config (clients fs)} {n other : ℕ} (h : awaitsCheck c n other = true) :
    Awaits locks c n other := by
  unfold awaitsCheck at h
  split at h
  · split at h
    · next _ _ owner lock path handle caller k hn =>
      simp only [Bool.and_eq_true, decide_eq_true_eq] at h
      obtain ⟨⟨hkind, hholder⟩, hne⟩ := h
      exact ⟨_, path, handle, owner, lock, caller, ⟨_, k, hn⟩, hkind, hholder, hne⟩
    · cases h
  · cases h

/-- Whether a call of a client is about to take the write guard. -/
def writesCheck (c : Config (clients fs)) (m client : ℕ) : Bool :=
  match c.threads[m]? with
  | some ⟨_, req, .running (.act (.fs (.own i)) _)⟩ =>
    match (i : PathInstr inner) with
    | .writeLock => decide (req.client = client)
    | _ => false
  | _ => false

lemma asksToWrite_of_check {c : Config (clients fs)} {m client : ℕ}
    (h : writesCheck c m client = true) : AsksToWrite c m client := by
  unfold writesCheck at h
  split at h
  · split at h
    · next hm =>
      obtain rfl := of_decide_eq_true h
      exact ⟨_, _, _, hm⟩
    · cases h
  · cases h

/-- Whether every call is one of two or has returned. -/
def onlyCheck (c : Config (clients fs)) (n m : ℕ) : Bool :=
  (List.range c.threads.length).all fun l =>
    decide (l = n) || decide (l = m) ||
      match c.threads[l]? with
      | some ⟨_, _, .running _⟩ => false
      | _ => true

lemma only_of_check {c : Config (clients fs)} {n m : ℕ} (h : onlyCheck c n m = true) {l id : ℕ}
    {req : ClientCall fs.toFsSig} {p : RtProg fs.toFsSig Unit}
    (hl : c.threads[l]? = some ⟨id, req, .running p⟩) : l = n ∨ l = m := by
  have hlt : l ∈ List.range c.threads.length :=
    List.mem_range.mpr (List.getElem?_eq_some_iff.mp hl).1
  have hone := List.all_eq_true.mp h l hlt
  simp only [hl, Bool.or_false, Bool.or_eq_true, decide_eq_true_eq] at hone
  exact hone

/-- The next `m` instructions of call `n`. -/
def steps (n m : ℕ) : List (Action (clients fs)) :=
  List.replicate m (.step n (some ({} : PathSample.Entries)))

/-- Make a call alone: `m` instructions and the return. -/
def whole (n m : ℕ) (req : ClientCall fs.toFsSig) : List (Action (clients fs)) :=
  .issue req :: steps n m ++ [.answer n]

/-- A client asks for a lock on the first file, or for giving it up. -/
def lockCall (client : ℕ) (kind : LockKind) (sleep : Bool) : ClientCall fs.toFsSig :=
  ⟨client, .fileOp (.setlk client ⟨kind, 0, 9, 0⟩ sleep) ⟨2⟩ () {}⟩

/-- A client makes a directory. -/
def mkdirCall (client : ℕ) : ClientCall fs.toFsSig :=
  ⟨client, .makeOp (.mkdir NodeId.ROOT [100] 0 0) {}⟩

/-- Client 1 makes a file and locks it, and client 2 sleeps for the lock. -/
def sleeping : List (Action (clients fs)) :=
  whole 0 10 ⟨1, .create NodeId.ROOT [97] 0 0 0 {}⟩ ++ whole 1 5 (lockCall 1 .write false) ++
    .issue (lockCall 2 .write true) :: steps 2 3

/-- Then client 1 makes a directory. -/
def blocked : Config (clients fs) :=
  after turnsCheck (sleeping ++ [.issue (mkdirCall 1)])

/-- Or client 3 does so, and client 1 gives up the lock. -/
def unlocking : Config (clients fs) :=
  after considerateCheck
    (sleeping ++ [.issue (mkdirCall 3), .issue (lockCall 1 .unlock false)])

end LockSample

/-! ## Calls cross or go on -/

end TypedFuse
