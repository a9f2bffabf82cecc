import TypedFuse.Codec.Time

/-!
# Record locks

`to_flock` and `from_flock` of `file_lock.rs`, between a `FileLock`, whose range is given by its
first and last byte, and the raw `flock`, whose range is given by its first byte and its length.  A
length of zero reaches to the end of the file, which a `FileLock` says by the greatest last byte.
-/

namespace TypedFuse

/-! ## The two types -/

/-- `u64::MAX`. -/
def U64_MAX : ℕ := 2 ^ 64 - 1

/-- A `FileLock` of the code: its fields fit their types. -/
def FileLock.InRange (lock : FileLock) : Prop :=
  lock.start < 2 ^ 64 ∧ lock.end_ < 2 ^ 64 ∧ lock.pid < 2 ^ 32

instance (lock : FileLock) : Decidable lock.InRange :=
  inferInstanceAs (Decidable (_ ∧ _ ∧ _))

/-- The raw `flock`, with a 64-bit `off_t` and a 32-bit `pid_t`. -/
structure Flock where
  l_type : ℤ
  l_whence : ℤ
  l_start : ℤ
  l_len : ℤ
  l_pid : ℤ
  deriving DecidableEq

/-- A `flock` of the code: its fields fit their types. -/
structure Flock.InRange (raw : Flock) : Prop where
  l_type : -2 ^ 15 ≤ raw.l_type ∧ raw.l_type < 2 ^ 15
  l_whence : -2 ^ 15 ≤ raw.l_whence ∧ raw.l_whence < 2 ^ 15
  l_start : IsI64 raw.l_start
  l_len : IsI64 raw.l_len
  l_pid : -2 ^ 31 ≤ raw.l_pid ∧ raw.l_pid < 2 ^ 31

/-- `F_RDLCK`. -/
def F_RDLCK : ℤ := 0

/-- `F_WRLCK`. -/
def F_WRLCK : ℤ := 1

/-- `F_UNLCK`. -/
def F_UNLCK : ℤ := 2

/-- `SEEK_SET`. -/
def SEEK_SET : ℤ := 0

/-! ## The conversions -/

/-- `checked_sub` of a `u64`. -/
def checkedSubU64 (v w : ℕ) : Option ℕ :=
  if w ≤ v then some (v - w) else none

/-- `checked_add` of a `u64`. -/
def checkedAddU64 (v w : ℕ) : Option ℕ :=
  if v + w < 2 ^ 64 then some (v + w) else none

/-- `off_t::try_from` a `u64`. -/
def offFromU64 (v : ℕ) : Option ℤ :=
  if v < 2 ^ 63 then some v else none

/-- `pid_t::try_from` a `u32`. -/
def pidFromU32 (v : ℕ) : Option ℤ :=
  if v < 2 ^ 31 then some v else none

/-- `u32::try_from` a `pid_t`. -/
def u32FromPid (v : ℤ) : Option ℕ :=
  if 0 ≤ v then some v.toNat else none

/-- `ok_or` and `map_err`: a missing value is an error. -/
def okOr {α : Type} (e : Errno) : Option α → Except Errno α
  | some a => .ok a
  | none => .error e

/-- The type of a lock in `flock`. -/
def lockType : LockKind → ℤ
  | .read => F_RDLCK
  | .write => F_WRLCK
  | .unlock => F_UNLCK

/-- The kind of a lock, if its type is known. -/
def lockKind (l_type : ℤ) : Option LockKind :=
  if l_type = F_RDLCK then some .read
  else if l_type = F_WRLCK then some .write
  else if l_type = F_UNLCK then some .unlock
  else none

/-- The number of bytes of a finite range. -/
def lockLength (start end_ : ℕ) : Option ℕ :=
  (checkedSubU64 end_ start).bind fun n => checkedAddU64 n 1

/-- The `l_len` of a range. -/
def rangeLen (start end_ : ℕ) : Except Errno ℤ :=
  if end_ = U64_MAX then .ok 0
  else okOr .EOVERFLOW ((lockLength start end_).bind offFromU64)

/-- `to_flock`. -/
def toFlock (lock : FileLock) : Except Errno Flock :=
  if lock.end_ < lock.start then .error Errno.EINVAL
  else do
    let l_start ← okOr .EOVERFLOW (offFromU64 lock.start)
    let l_len ← rangeLen lock.start lock.end_
    let l_pid ← okOr .EOVERFLOW (pidFromU32 lock.pid)
    .ok { l_type := lockType lock.kind, l_whence := SEEK_SET, l_start, l_len, l_pid }

/-- The last byte of a finite range. -/
def lockEnd (start : ℕ) (l_len : ℤ) : Option ℕ :=
  checkedAddU64 start (l_len.toNat - 1)

/-- The last byte of a range. -/
def rangeEnd (start : ℕ) (l_len : ℤ) : Except Errno ℕ :=
  if l_len = 0 then .ok U64_MAX else okOr .EINVAL (lockEnd start l_len)

/-- `from_flock`. -/
def fromFlock (raw : Flock) : Except Errno FileLock :=
  if raw.l_whence ≠ SEEK_SET ∨ raw.l_start < 0 ∨ raw.l_len < 0 then .error Errno.EINVAL
  else do
    let kind ← okOr .EINVAL (lockKind raw.l_type)
    let end_ ← rangeEnd raw.l_start.toNat raw.l_len
    .ok { kind, start := raw.l_start.toNat, end_, pid := (u32FromPid raw.l_pid).getD 0 }

/-! ## When they succeed -/

/-- What a step of a conversion that succeeded gave. -/
lemma of_ok_bind {α β : Type} {x : Except Errno α} {f : α → Except Errno β} {b : β}
    (h : x >>= f = .ok b) : ∃ a, x = .ok a ∧ f a = .ok b := by
  cases x with
  | error e => cases h
  | ok a => exact ⟨a, rfl, h⟩

lemma of_okOr {α : Type} {e : Errno} {o : Option α} {a : α} (h : okOr e o = .ok a) :
    o = some a := by
  cases o with
  | none => cases h
  | some b =>
    cases h
    rfl

lemma of_offFromU64 {v : ℕ} {w : ℤ} (h : offFromU64 v = some w) : v < 2 ^ 63 ∧ w = v := by
  unfold offFromU64 at h
  split at h
  · rename_i hlt
    exact ⟨hlt, (Option.some_inj.mp h).symm⟩
  · cases h

lemma lockKind_lockType (kind : LockKind) : lockKind (lockType kind) = some kind := by
  cases kind <;> rfl

lemma lockType_lockKind {l_type : ℤ} {kind : LockKind} (h : lockKind l_type = some kind) :
    lockType kind = l_type := by
  unfold lockKind at h
  split_ifs at h with hread hwrite hunlock
  · rw [← Option.some_inj.mp h, hread]
    rfl
  · rw [← Option.some_inj.mp h, hwrite]
    rfl
  · rw [← Option.some_inj.mp h, hunlock]
    rfl

/-- The length of a finite range is always computed. -/
lemma lockLength_eq {start end_ : ℕ} (hle : start ≤ end_) (hend : end_ < 2 ^ 64)
    (hfinite : end_ ≠ U64_MAX) : lockLength start end_ = some (end_ - start + 1) := by
  unfold U64_MAX at hfinite
  unfold lockLength checkedSubU64 checkedAddU64
  rw [if_pos hle, Option.bind_some, if_pos (by omega)]

/-- The last byte of a finite range is always computed. -/
lemma lockEnd_eq {l_start l_len : ℤ} (hstart : IsI64 l_start) (hlen : IsI64 l_len)
    (hpos : 0 < l_len) :
    lockEnd l_start.toNat l_len = some (l_start.toNat + (l_len.toNat - 1)) := by
  unfold IsI64 at hstart hlen
  unfold lockEnd checkedAddU64
  rw [if_pos (by omega)]

/-- The bounds under which a lock has a `flock`. -/
structure FileLock.Fits (lock : FileLock) : Prop where
  ordered : lock.start ≤ lock.end_
  start : lock.start ≤ 2 ^ 63 - 1
  pid : lock.pid ≤ 2 ^ 31 - 1
  length : lock.end_ = U64_MAX ∨ lock.end_ - lock.start + 1 ≤ 2 ^ 63 - 1

/-- The length of a lock in `flock`. -/
def flockLen (lock : FileLock) : ℕ :=
  if lock.end_ = U64_MAX then 0 else lock.end_ - lock.start + 1

/-- The `flock` of a lock within the bounds. -/
lemma toFlock_of_fits {lock : FileLock} (hrange : lock.InRange) (h : lock.Fits) :
    toFlock lock = .ok ⟨lockType lock.kind, SEEK_SET, lock.start, flockLen lock, lock.pid⟩ := by
  obtain ⟨hordered, hstart, hpid, hlength⟩ := h
  have hoff : offFromU64 lock.start = some (lock.start : ℤ) := if_pos (by omega)
  have hpid' : pidFromU32 lock.pid = some (lock.pid : ℤ) := if_pos (by omega)
  have hlen : rangeLen lock.start lock.end_ = .ok (flockLen lock : ℤ) := by
    unfold rangeLen flockLen
    by_cases heof : lock.end_ = U64_MAX
    · rw [if_pos heof, if_pos heof]
      rfl
    · have hlt : lock.end_ - lock.start + 1 < 2 ^ 63 := by omega
      rw [if_neg heof, if_neg heof, lockLength_eq hordered hrange.2.1 heof, Option.bind_some]
      unfold offFromU64
      rw [if_pos hlt]
      rfl
  unfold toFlock
  rw [if_neg (by omega), hoff, hpid', hlen]
  rfl

/-- A lock that has a `flock` is within the bounds. -/
lemma fits_of_toFlock {lock : FileLock} {raw : Flock} (hrange : lock.InRange)
    (h : toFlock lock = .ok raw) : lock.Fits := by
  unfold toFlock at h
  split at h
  · cases h
  · rename_i hlt
    have hordered : lock.start ≤ lock.end_ := by omega
    obtain ⟨l_start, hstart, h⟩ := of_ok_bind h
    obtain ⟨l_len, hlen, h⟩ := of_ok_bind h
    obtain ⟨l_pid, hpid, h⟩ := of_ok_bind h
    obtain ⟨hstart, -⟩ := of_offFromU64 (of_okOr hstart)
    refine ⟨hordered, by omega, ?_, ?_⟩
    · have hpid := of_okOr hpid
      unfold pidFromU32 at hpid
      split at hpid
      · omega
      · cases hpid
    · by_cases heof : lock.end_ = U64_MAX
      · exact .inl heof
      · unfold rangeLen at hlen
        rw [if_neg heof, lockLength_eq hordered hrange.2.1 heof, Option.bind_some] at hlen
        obtain ⟨hlen, -⟩ := of_offFromU64 (of_okOr hlen)
        right
        omega

/-- What a lock is read from: `SEEK_SET`, a range that is not negative and a known type. -/
structure Flock.Accepted (raw : Flock) (kind : LockKind) : Prop where
  whence : raw.l_whence = SEEK_SET
  start : 0 ≤ raw.l_start
  len : 0 ≤ raw.l_len
  kind : lockKind raw.l_type = some kind

/-- The last byte of a `flock`. -/
def flockEnd (raw : Flock) : ℕ :=
  if raw.l_len = 0 then U64_MAX else raw.l_start.toNat + (raw.l_len.toNat - 1)

/-- The lock of an accepted `flock`. -/
lemma fromFlock_of_accepted {raw : Flock} {kind : LockKind} (hrange : raw.InRange)
    (h : raw.Accepted kind) :
    fromFlock raw = .ok ⟨kind, raw.l_start.toNat, flockEnd raw, raw.l_pid.toNat⟩ := by
  obtain ⟨hwhence, hstart, hlen, hkind⟩ := h
  have hpid : (u32FromPid raw.l_pid).getD 0 = raw.l_pid.toNat := by
    unfold u32FromPid
    split
    · rfl
    · rename_i hneg
      rw [Option.getD_none]
      omega
  have hend : rangeEnd raw.l_start.toNat raw.l_len = .ok (flockEnd raw) := by
    unfold rangeEnd flockEnd
    by_cases heof : raw.l_len = 0
    · rw [if_pos heof, if_pos heof]
    · rw [if_neg heof, if_neg heof, lockEnd_eq hrange.l_start hrange.l_len (by omega)]
      rfl
  unfold fromFlock
  rw [if_neg (by omega), hkind, hpid, hend]
  rfl

/-- A `flock` that has a lock is accepted. -/
lemma accepted_of_fromFlock {raw : Flock} {lock : FileLock} (h : fromFlock raw = .ok lock) :
    ∃ kind, raw.Accepted kind := by
  unfold fromFlock at h
  split at h
  · cases h
  · rename_i hvalid
    obtain ⟨kind, hkind, -⟩ := of_ok_bind h
    exact ⟨kind, by tauto, by omega, by omega, of_okOr hkind⟩

/-! ## Round trips -/

/-- The length is zero exactly for a range to the end of the file. -/
lemma flockLen_eq_zero_iff (lock : FileLock) : flockLen lock = 0 ↔ lock.end_ = U64_MAX := by
  unfold flockLen
  split <;> simp_all

/-- The last byte is the greatest exactly for a range to the end of the file. -/
lemma flockEnd_eq_max_iff {raw : Flock} (hrange : raw.InRange) (hstart : 0 ≤ raw.l_start)
    (hlen : 0 ≤ raw.l_len) : flockEnd raw = U64_MAX ↔ raw.l_len = 0 := by
  have hlt := hrange.l_start.2
  have hlt' := hrange.l_len.2
  unfold flockEnd U64_MAX
  split <;> omega

/-- The `flock` of a lock is in range and accepted. -/
lemma accepted_flock {lock : FileLock} (h : lock.Fits) :
    Flock.InRange ⟨lockType lock.kind, SEEK_SET, lock.start, flockLen lock, lock.pid⟩ ∧
      Flock.Accepted ⟨lockType lock.kind, SEEK_SET, lock.start, flockLen lock, lock.pid⟩
        lock.kind := by
  obtain ⟨hordered, hstart, hpid, hlength⟩ := h
  have hlen : flockLen lock < 2 ^ 63 := by
    unfold flockLen
    split <;> omega
  have htype : -2 ^ 15 ≤ lockType lock.kind ∧ lockType lock.kind < 2 ^ 15 := by
    cases lock.kind <;> decide
  have hwhence : -2 ^ 15 ≤ SEEK_SET ∧ SEEK_SET < 2 ^ 15 := by decide
  constructor
  · exact ⟨htype, hwhence, ⟨by dsimp only; omega, by dsimp only; omega⟩,
      ⟨by dsimp only; omega, by dsimp only; omega⟩,
      ⟨by dsimp only; omega, by dsimp only; omega⟩⟩
  · exact ⟨rfl, Int.natCast_nonneg _, Int.natCast_nonneg _, lockKind_lockType _⟩

/-- A lock is read back from its `flock`. -/
lemma fromFlock_flock {lock : FileLock} (h : lock.Fits) :
    fromFlock ⟨lockType lock.kind, SEEK_SET, lock.start, flockLen lock, lock.pid⟩ =
      .ok lock := by
  obtain ⟨hrange, haccepted⟩ := accepted_flock h
  have hordered := h.ordered
  rw [fromFlock_of_accepted hrange haccepted]
  have hend : flockEnd ⟨lockType lock.kind, SEEK_SET, lock.start, flockLen lock, lock.pid⟩ =
      lock.end_ := by
    unfold flockEnd flockLen
    dsimp only
    by_cases heof : lock.end_ = U64_MAX
    · rw [if_pos heof, if_pos (by rfl), heof]
    · rw [if_neg heof, if_neg (by omega)]
      omega
  rw [hend]
  rfl

/-- The lock of an accepted `flock` is in range and within the bounds. -/
lemma fits_lock {raw : Flock} {kind : LockKind} (hrange : raw.InRange) (h : raw.Accepted kind) :
    FileLock.InRange ⟨kind, raw.l_start.toNat, flockEnd raw, raw.l_pid.toNat⟩ ∧
      FileLock.Fits ⟨kind, raw.l_start.toNat, flockEnd raw, raw.l_pid.toNat⟩ := by
  obtain ⟨-, hstart, hlen, -⟩ := h
  have hstart' := hrange.l_start.2
  have hlen' := hrange.l_len.2
  have hpid := hrange.l_pid.2
  have hend : flockEnd raw < 2 ^ 64 ∧ raw.l_start.toNat ≤ flockEnd raw ∧
      (flockEnd raw = U64_MAX ∨ flockEnd raw - raw.l_start.toNat + 1 ≤ 2 ^ 63 - 1) := by
    unfold flockEnd U64_MAX
    split <;> omega
  obtain ⟨hend, hordered, hlength⟩ := hend
  constructor
  · exact ⟨by dsimp only; omega, hend, by dsimp only; omega⟩
  · exact ⟨hordered, by dsimp only; omega, by dsimp only; omega, hlength⟩

/-- A `flock` is written back from its lock, with a negative pid replaced. -/
lemma toFlock_lock {raw : Flock} {kind : LockKind} (hrange : raw.InRange)
    (h : raw.Accepted kind) :
    toFlock ⟨kind, raw.l_start.toNat, flockEnd raw, raw.l_pid.toNat⟩ =
      .ok { raw with l_pid := max raw.l_pid 0 } := by
  obtain ⟨hrange', hfits⟩ := fits_lock hrange h
  have hend := flockEnd_eq_max_iff hrange h.start h.len
  have hstart := Int.toNat_of_nonneg h.start
  have hpid : (raw.l_pid.toNat : ℤ) = max raw.l_pid 0 := by omega
  have hlen : (flockLen ⟨kind, raw.l_start.toNat, flockEnd raw, raw.l_pid.toNat⟩ : ℤ) =
      raw.l_len := by
    have hnonneg := h.len
    unfold flockLen
    dsimp only
    by_cases heof : raw.l_len = 0
    · rw [if_pos (hend.mpr heof), heof]
      rfl
    · rw [if_neg (mt hend.mp heof)]
      unfold flockEnd
      rw [if_neg heof]
      omega
  rw [toFlock_of_fits hrange' hfits, lockType_lockKind h.kind]
  dsimp only
  rw [hlen, hstart, hpid, ← h.whence]

/-- The codec of record locks: when it succeeds, that it is inverse in both directions, that it
never mixes up a finite range with one to the end of the file, and that its checked arithmetic never
fails. -/
theorem flock_codec :
    (∀ lock : FileLock, lock.InRange →
      ((∃ raw, toFlock lock = .ok raw) ↔
        lock.start ≤ lock.end_ ∧ lock.start ≤ 2 ^ 63 - 1 ∧ lock.pid ≤ 2 ^ 31 - 1 ∧
          (lock.end_ = U64_MAX ∨ lock.end_ - lock.start + 1 ≤ 2 ^ 63 - 1)) ∧
      (∀ raw, toFlock lock = .ok raw →
        fromFlock raw = .ok lock ∧ (raw.l_len = 0 ↔ lock.end_ = U64_MAX)) ∧
      (lock.start ≤ lock.end_ → lock.end_ ≠ U64_MAX →
        (lockLength lock.start lock.end_).isSome)) ∧
    ∀ raw : Flock, raw.InRange →
      ((∃ lock, fromFlock raw = .ok lock) ↔
        raw.l_whence = SEEK_SET ∧ 0 ≤ raw.l_start ∧ 0 ≤ raw.l_len ∧
          (raw.l_type = F_RDLCK ∨ raw.l_type = F_WRLCK ∨ raw.l_type = F_UNLCK)) ∧
      (∀ lock, fromFlock raw = .ok lock →
        toFlock lock = .ok { raw with l_pid := max raw.l_pid 0 } ∧
          (raw.l_len = 0 ↔ lock.end_ = U64_MAX)) ∧
      (0 ≤ raw.l_start → 0 < raw.l_len → (lockEnd raw.l_start.toNat raw.l_len).isSome) := by
  constructor
  · intro lock hrange
    refine ⟨?_, ?_, ?_⟩
    · constructor
      · rintro ⟨raw, h⟩
        obtain ⟨hordered, hstart, hpid, hlength⟩ := fits_of_toFlock hrange h
        exact ⟨hordered, hstart, hpid, hlength⟩
      · rintro ⟨hordered, hstart, hpid, hlength⟩
        exact ⟨_, toFlock_of_fits hrange ⟨hordered, hstart, hpid, hlength⟩⟩
    · intro raw h
      have hfits := fits_of_toFlock hrange h
      rw [toFlock_of_fits hrange hfits] at h
      rw [← Except.ok.inj h]
      constructor
      · exact fromFlock_flock hfits
      · exact Int.natCast_eq_zero.trans (flockLen_eq_zero_iff lock)
    · intro hordered hfinite
      rw [lockLength_eq hordered hrange.2.1 hfinite]
      rfl
  · intro raw hrange
    refine ⟨?_, ?_, ?_⟩
    · constructor
      · rintro ⟨lock, h⟩
        obtain ⟨kind, hwhence, hstart, hlen, hkind⟩ := accepted_of_fromFlock h
        refine ⟨hwhence, hstart, hlen, ?_⟩
        rw [← lockType_lockKind hkind]
        cases kind
        · exact .inl rfl
        · exact .inr (.inl rfl)
        · exact .inr (.inr rfl)
      · rintro ⟨hwhence, hstart, hlen, htype⟩
        obtain ⟨kind, hkind⟩ : ∃ kind, lockKind raw.l_type = some kind := by
          rcases htype with h | h | h <;> rw [h] <;> exact ⟨_, rfl⟩
        exact ⟨_, fromFlock_of_accepted hrange ⟨hwhence, hstart, hlen, hkind⟩⟩
    · intro lock h
      obtain ⟨kind, haccepted⟩ := accepted_of_fromFlock h
      rw [fromFlock_of_accepted hrange haccepted] at h
      rw [← Except.ok.inj h]
      constructor
      · exact toFlock_lock hrange haccepted
      · exact (flockEnd_eq_max_iff hrange haccepted.start haccepted.len).symm
    · intro hstart hpos
      rw [lockEnd_eq hrange.l_start hrange.l_len hpos]
      rfl

theorem flock_codec_byte :
    fromFlock ⟨F_RDLCK, SEEK_SET, 7, 1, 12⟩ = .ok ⟨.read, 7, 7, 12⟩ :=
  ((flock_codec.1 ⟨.read, 7, 7, 12⟩ (by decide)).2.1 _ rfl).1

end TypedFuse
