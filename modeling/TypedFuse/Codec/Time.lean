import TypedFuse.Core.Types

/-!
# Times and durations

Arithmetic on `SystemTime` and `Duration` as the standard library defines it, on a machine whose
clock counts 64-bit seconds.  A time and a duration are numbers of nanoseconds (`ticks`); an
operation whose exact result does not fit is undefined.
-/

namespace TypedFuse

/-! ## Machine integers -/

/-- The value fits a signed 64-bit integer. -/
def IsI64 (v : ℤ) : Prop :=
  -2 ^ 63 ≤ v ∧ v < 2 ^ 63

instance (v : ℤ) : Decidable (IsI64 v) :=
  inferInstanceAs (Decidable (_ ∧ _))

/-- A `u64` as a signed 64-bit integer. -/
def asI64 (v : ℕ) : ℤ :=
  (v : ℤ).bmod (2 ^ 64)

/-- An `i64` as an unsigned 32-bit integer. -/
def asU32 (v : ℤ) : ℕ :=
  (v % 2 ^ 32).toNat

/-- Negation of an `i64`, undefined on overflow. -/
def negI64 (v : ℤ) : Option ℤ :=
  if IsI64 (-v) then some (-v) else none

/-- Subtraction of `i64`s, undefined on overflow. -/
def subI64 (v w : ℤ) : Option ℤ :=
  if IsI64 (v - w) then some (v - w) else none

/-- Subtraction of `u32`s, undefined on overflow. -/
def subU32 (v w : ℕ) : Option ℕ :=
  if w ≤ v then some (v - w) else none

lemma asI64_of_lt {v : ℕ} (h : v < 2 ^ 63) : asI64 v = v := by
  unfold asI64
  rw [Int.bmod_eq_of_le] <;> omega

lemma asI64_two_pow : asI64 (2 ^ 63) = -2 ^ 63 := by
  decide

lemma asU32_of_lt {v : ℤ} (h₀ : 0 ≤ v) (h : v < 2 ^ 32) : (asU32 v : ℤ) = v := by
  unfold asU32
  rw [Int.emod_eq_of_lt h₀ h]
  exact Int.toNat_of_nonneg h₀

/-! ## Durations -/

/-- A span of time: whole seconds and the nanoseconds after them. -/
structure Duration where
  secs : ℕ
  nanos : Fin 1000000000
  deriving DecidableEq

namespace Duration

/-- The nanoseconds of a duration. -/
def ticks (d : Duration) : ℕ :=
  d.secs * 1000000000 + d.nanos

/-- The duration of a number of nanoseconds. -/
def ofTicks (m : ℕ) : Duration where
  secs := m / 1000000000
  nanos := ⟨m % 1000000000, Nat.mod_lt _ (by decide)⟩

/-- `Duration::new`. -/
def new (secs nanos : ℕ) : Duration :=
  ofTicks (secs * 1000000000 + nanos)

@[simp] lemma ticks_ofTicks (m : ℕ) : (ofTicks m).ticks = m := by
  unfold ticks ofTicks
  dsimp only
  omega

@[simp] lemma ticks_new (secs nanos : ℕ) : (new secs nanos).ticks = secs * 1000000000 + nanos :=
  ticks_ofTicks _

end Duration

/-! ## Points in time -/

namespace SystemTime

/-- The nanoseconds since the epoch. -/
def ticks (t : SystemTime) : ℤ :=
  t.secs * 1000000000 + (t.nanos : ℕ)

/-- The time a number of nanoseconds after the epoch. -/
def ofTicks (m : ℤ) : SystemTime where
  secs := m / 1000000000
  nanos := ⟨(m % 1000000000).toNat, by omega⟩

/-- The time can be represented. -/
def Representable (t : SystemTime) : Prop :=
  IsI64 t.secs

instance (t : SystemTime) : Decidable t.Representable :=
  inferInstanceAs (Decidable (IsI64 _))

lemma representable_mk {secs : ℤ} (hsecs : IsI64 secs) (nanos : Fin 1000000000) :
    Representable ⟨secs, nanos⟩ := hsecs

/-- A representable time. -/
def checked (t : SystemTime) : Option SystemTime :=
  if t.Representable then some t else none

/-- `checked_add`; `+` panics where it is undefined. -/
def checkedAdd (t : SystemTime) (d : Duration) : Option SystemTime :=
  (ofTicks (t.ticks + d.ticks)).checked

/-- `checked_sub`; `-` panics where it is undefined. -/
def checkedSub (t : SystemTime) (d : Duration) : Option SystemTime :=
  (ofTicks (t.ticks - d.ticks)).checked

/-- `duration_since`: the time since an earlier time, or the time until a later one. -/
def durationSince (t u : SystemTime) : Except Duration Duration :=
  if u.ticks ≤ t.ticks then .ok (.ofTicks (t.ticks - u.ticks).toNat)
  else .error (.ofTicks (u.ticks - t.ticks).toNat)

/-- `t.duration_since(UNIX_EPOCH)`: the time since the epoch, or the time until it. -/
def sinceEpoch (t : SystemTime) : Except Duration Duration :=
  if 0 ≤ t.secs then .ok ⟨t.secs.toNat, t.nanos⟩
  else if t.nanos = 0 then .error ⟨(-t.secs).toNat, 0⟩
  else .error ⟨(-t.secs - 1).toNat, -t.nanos⟩

@[simp] lemma ticks_epoch : epoch.ticks = 0 := rfl

@[simp] lemma ticks_ofTicks (m : ℤ) : (ofTicks m).ticks = m := by
  unfold ticks ofTicks
  dsimp only
  omega

/-- A time is determined by its nanoseconds. -/
lemma ofTicks_ticks (t : SystemTime) : ofTicks t.ticks = t := by
  obtain ⟨secs, nanos, hnanos⟩ := t
  have hsecs : (secs * 1000000000 + (nanos : ℤ)) / 1000000000 = secs := by omega
  have hrest : ((secs * 1000000000 + (nanos : ℤ)) % 1000000000).toNat = nanos := by omega
  unfold ofTicks ticks
  simp only [hsecs, hrest]

/-- The time with these seconds and nanoseconds. -/
lemma ticks_mk (secs : ℤ) (nanos : Fin 1000000000) :
    ticks ⟨secs, nanos⟩ = secs * 1000000000 + (nanos : ℕ) := rfl

lemma checkedAdd_of_ticks {t u : SystemTime} {d : Duration} (hu : u.Representable)
    (h : t.ticks + d.ticks = u.ticks) : t.checkedAdd d = some u := by
  unfold checkedAdd checked
  rw [h, ofTicks_ticks, if_pos hu]

lemma checkedSub_of_ticks {t u : SystemTime} {d : Duration} (hu : u.Representable)
    (h : t.ticks - d.ticks = u.ticks) : t.checkedSub d = some u := by
  unfold checkedSub checked
  rw [h, ofTicks_ticks, if_pos hu]

/-- `duration_since` the epoch, in seconds and nanoseconds. -/
lemma durationSince_epoch (t : SystemTime) : t.durationSince epoch = t.sinceEpoch := by
  obtain ⟨secs, nanos, hnanos⟩ := t
  unfold durationSince sinceEpoch Duration.ofTicks
  rw [ticks_epoch, ticks_mk]
  by_cases hsecs : 0 ≤ secs
  · have hmod : (secs * 1000000000 + (nanos : ℤ)).toNat % 1000000000 = nanos := by omega
    have hdiv : (secs * 1000000000 + (nanos : ℤ)).toNat / 1000000000 = secs.toNat := by omega
    rw [if_pos (by dsimp only; omega), if_pos hsecs]
    simp only [sub_zero, hmod, hdiv]
  · rw [if_neg (by dsimp only; omega), if_neg hsecs]
    by_cases hzero : nanos = 0
    · subst hzero
      have hdiv : (0 - (secs * 1000000000 + ((0 : ℕ) : ℤ))).toNat / 1000000000 =
          (-secs).toNat := by
        omega
      have hmod : (0 - (secs * 1000000000 + ((0 : ℕ) : ℤ))).toNat % 1000000000 = 0 := by omega
      simp only [hdiv, hmod]
      rfl
    · have hdiv : (0 - (secs * 1000000000 + (nanos : ℤ))).toNat / 1000000000 =
          (-secs - 1).toNat := by omega
      have hmod : (0 - (secs * 1000000000 + (nanos : ℤ))).toNat % 1000000000 =
          1000000000 - nanos := by omega
      have hne : (⟨nanos, hnanos⟩ : Fin 1000000000) ≠ 0 := by
        intro h
        exact hzero (congrArg Fin.val h)
      have hneg : (⟨1000000000 - nanos, by omega⟩ : Fin 1000000000) = -⟨nanos, hnanos⟩ := by
        apply Fin.ext
        rw [Fin.val_neg', Nat.mod_eq_of_lt (by omega)]
      rw [if_neg hne, ← hneg]
      simp only [hdiv, hmod]

end SystemTime

end TypedFuse
