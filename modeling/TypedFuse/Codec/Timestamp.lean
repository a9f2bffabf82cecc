import TypedFuse.Codec.Time

/-!
# Timestamps

The conversions between `SystemTime` and the seconds and nanoseconds of a `stat`: the pair in
`conv.rs`, and the decoder and the encoder of `passthrough.rs`.  A conversion is undefined where the
code panics, on an overflow.  In `stat` the nanoseconds count forward from the seconds, also before
the epoch, where a duration counts back; so a time before the epoch with a fraction borrows a
second.
-/

namespace TypedFuse

open SystemTime

/-! ## The conversions -/

/-- `system_time_to_secs_nsecs`. -/
def systemTimeToSecsNsecs (t : SystemTime) : Option (ℤ × ℤ) :=
  match t.durationSince epoch with
  | .ok d => some (asI64 d.secs, d.nanos.val)
  | .error d =>
    let secs := asI64 d.secs
    let nsecs := (d.nanos.val : ℤ)
    if nsecs = 0 then (negI64 secs).map fun s => (s, 0)
    else do
      let s ← negI64 secs
      let s ← subI64 s 1
      let ns ← subI64 1000000000 nsecs
      some (s, ns)

/-- `secs_nsecs_to_system_time`. -/
def secsNsecsToSystemTime (secs nsecs : ℤ) : Option SystemTime :=
  if 0 ≤ secs then epoch.checkedAdd (.new secs.toNat (asU32 nsecs))
  else do
    let magnitude ← negI64 secs
    let t ← epoch.checkedSub (.new magnitude.toNat 0)
    t.checkedAdd (.new 0 (asU32 nsecs))

/-- The time until the epoch, in `system_time_from_secs`. -/
def untilEpoch (secs nanos : ℤ) : Option Duration :=
  if nanos = 0 then some (.new secs.natAbs 0)
  else do
    let nanos ← subU32 1000000000 (asU32 nanos)
    some (.new (secs.natAbs - 1) nanos)

/-- `system_time_from_secs`. -/
def systemTimeFromSecs (secs nanos : ℤ) : Option SystemTime :=
  if 0 ≤ secs then epoch.checkedAdd (.new secs.toNat (asU32 nanos))
  else do
    let d ← untilEpoch secs nanos
    some ((epoch.checkedSub d).getD epoch)

/-- `UTIME_OMIT`. -/
def UTIME_OMIT : ℤ := 1073741822

/-- `to_timespec`: seconds and nanoseconds. -/
def toTimespec : Option SystemTime → ℤ × ℤ
  | some t =>
    match t.durationSince epoch with
    | .ok d => (asI64 d.secs, d.nanos.val)
    | .error _ => (0, 0)
  | none => (0, UTIME_OMIT)

/-! ## Decoding -/

/-- Nanoseconds below a second. -/
lemma exists_nanos {nsecs : ℤ} (h₀ : 0 ≤ nsecs) (h : nsecs < 1000000000) :
    ∃ nanos : Fin 1000000000, nsecs = (nanos.val : ℤ) := by
  refine ⟨⟨nsecs.toNat, by omega⟩, ?_⟩
  exact (Int.toNat_of_nonneg h₀).symm

lemma asU32_nanos (nanos : Fin 1000000000) : asU32 (nanos.val : ℤ) = nanos.val := by
  have hlt := nanos.isLt
  have h := asU32_of_lt (v := (nanos.val : ℤ)) (by omega) (by omega)
  exact_mod_cast h

lemma negI64_of_lt {secs : ℤ} (hsecs : IsI64 secs) (hmin : secs ≠ -2 ^ 63) :
    negI64 secs = some (-secs) := by
  unfold IsI64 at hsecs
  unfold negI64
  rw [if_pos]
  unfold IsI64
  omega

lemma negI64_min : negI64 (-2 ^ 63) = none := by
  decide

/-- After the epoch the decoders add. -/
lemma checkedAdd_epoch {secs : ℤ} (hsecs : IsI64 secs) (h₀ : 0 ≤ secs)
    (nanos : Fin 1000000000) :
    epoch.checkedAdd (.new secs.toNat (asU32 nanos.val)) = some ⟨secs, nanos⟩ := by
  apply checkedAdd_of_ticks (representable_mk hsecs nanos)
  rw [ticks_epoch, ticks_mk, Duration.ticks_new, asU32_nanos]
  omega

/-- Before the epoch the decoder of `conv.rs` takes the seconds off, -/
lemma checkedSub_seconds {secs : ℤ} (hsecs : IsI64 secs) (hneg : secs < 0) :
    epoch.checkedSub (.new (-secs).toNat 0) = some ⟨secs, 0⟩ := by
  apply checkedSub_of_ticks (representable_mk hsecs 0)
  rw [ticks_epoch, ticks_mk, Duration.ticks_new]
  simp only [Fin.val_zero]
  omega

/-- and adds the nanoseconds. -/
lemma checkedAdd_nanos {secs : ℤ} (hsecs : IsI64 secs) (nanos : Fin 1000000000) :
    checkedAdd ⟨secs, 0⟩ (.new 0 (asU32 nanos.val)) = some ⟨secs, nanos⟩ := by
  apply checkedAdd_of_ticks (representable_mk hsecs nanos)
  rw [ticks_mk, ticks_mk, Duration.ticks_new, asU32_nanos]
  simp only [Fin.val_zero]
  omega

/-- The decoder of `conv.rs` gives the time with these seconds and nanoseconds. -/
lemma secsNsecsToSystemTime_eq {secs : ℤ} (hsecs : IsI64 secs) (hmin : secs ≠ -2 ^ 63)
    (nanos : Fin 1000000000) : secsNsecsToSystemTime secs nanos.val = some ⟨secs, nanos⟩ := by
  unfold secsNsecsToSystemTime
  by_cases h₀ : 0 ≤ secs
  · rw [if_pos h₀]
    exact checkedAdd_epoch hsecs h₀ nanos
  · rw [if_neg h₀, negI64_of_lt hsecs hmin]
    rw [Option.bind_eq_bind, Option.bind_some, checkedSub_seconds hsecs (by omega)]
    rw [Option.bind_eq_bind, Option.bind_some, checkedAdd_nanos hsecs nanos]

/-- The magnitude of the least number of seconds does not fit. -/
lemma secsNsecsToSystemTime_min (nsecs : ℤ) : secsNsecsToSystemTime (-2 ^ 63) nsecs = none := by
  unfold secsNsecsToSystemTime
  rw [if_neg (by decide), negI64_min]
  rfl

/-- The time until the epoch is what the borrowed magnitude says. -/
lemma checkedSub_untilEpoch {secs : ℤ} (hsecs : IsI64 secs) (hneg : secs < 0)
    (nanos : Fin 1000000000) :
    ∃ d, untilEpoch secs nanos.val = some d ∧ epoch.checkedSub d = some ⟨secs, nanos⟩ := by
  have hlt := nanos.isLt
  unfold untilEpoch
  by_cases hzero : (nanos.val : ℤ) = 0
  · refine ⟨.new secs.natAbs 0, if_pos hzero, ?_⟩
    apply checkedSub_of_ticks (representable_mk hsecs nanos)
    rw [ticks_epoch, ticks_mk, Duration.ticks_new]
    omega
  · have hsub : subU32 1000000000 nanos.val = some (1000000000 - nanos.val) :=
      if_pos (by omega)
    refine ⟨.new (secs.natAbs - 1) (1000000000 - nanos.val), ?_, ?_⟩
    · rw [if_neg hzero, asU32_nanos, hsub]
      rfl
    · apply checkedSub_of_ticks (representable_mk hsecs nanos)
      rw [ticks_epoch, ticks_mk, Duration.ticks_new]
      omega

/-- The decoder of `passthrough.rs` gives the time with these seconds and nanoseconds. -/
lemma systemTimeFromSecs_eq {secs : ℤ} (hsecs : IsI64 secs) (nanos : Fin 1000000000) :
    systemTimeFromSecs secs nanos.val = some ⟨secs, nanos⟩ := by
  unfold systemTimeFromSecs
  by_cases h₀ : 0 ≤ secs
  · rw [if_pos h₀]
    exact checkedAdd_epoch hsecs h₀ nanos
  · obtain ⟨d, hd, hsub⟩ := checkedSub_untilEpoch hsecs (by omega) nanos
    rw [if_neg h₀, hd]
    simp only [Option.bind_eq_bind, Option.bind_some, hsub, Option.getD_some]

/-! ## Encoding -/

/-- Where the encoder of `conv.rs` overflows on a representable time: a whole number of seconds
whose magnitude does not fit. -/
lemma systemTimeToSecsNsecs_eq {t : SystemTime} (ht : t.Representable) :
    systemTimeToSecsNsecs t =
      if t.secs = -2 ^ 63 ∧ t.nanos = 0 then none else some (t.secs, (t.nanos.val : ℤ)) := by
  obtain ⟨secs, nanos⟩ := t
  have hsecs : -2 ^ 63 ≤ secs ∧ secs < 2 ^ 63 := ht
  unfold systemTimeToSecsNsecs
  rw [durationSince_epoch]
  unfold sinceEpoch
  dsimp only
  by_cases h₀ : 0 ≤ secs
  · have hcast : asI64 secs.toNat = secs := by
      rw [asI64_of_lt (by omega)]
      exact Int.toNat_of_nonneg h₀
    rw [if_pos h₀, if_neg (by omega)]
    simp only [hcast]
  · rw [if_neg h₀]
    by_cases hzero : nanos = 0
    · subst hzero
      rw [if_pos rfl]
      simp only [Fin.val_zero, Nat.cast_zero, if_true, and_true]
      by_cases hmin : secs = -2 ^ 63
      · have hcast : asI64 (-secs).toNat = -2 ^ 63 := by
          have htwo : (-secs).toNat = 2 ^ 63 := by omega
          rw [htwo, asI64_two_pow]
        rw [if_pos hmin, hcast, negI64_min]
        rfl
      · have hcast : asI64 (-secs).toNat = -secs := by
          rw [asI64_of_lt (by omega)]
          omega
        have hneg : negI64 (-secs) = some secs := by
          rw [negI64_of_lt (by unfold IsI64; omega) (by omega), neg_neg]
        rw [if_neg hmin, hcast, hneg]
        rfl
    · have hpos : nanos.val ≠ 0 := by
        intro h
        exact hzero (Fin.ext h)
      have hval : (-nanos).val = 1000000000 - nanos.val := by
        rw [Fin.val_neg', Nat.mod_eq_of_lt (by omega)]
      have hlt := nanos.isLt
      have hcast : asI64 (-secs - 1).toNat = -secs - 1 := by
        rw [asI64_of_lt (by omega)]
        omega
      have hneg : negI64 (-secs - 1) = some (secs + 1) := by
        rw [negI64_of_lt (by unfold IsI64; omega) (by omega), Option.some_inj]
        omega
      have hsub : subI64 (secs + 1) 1 = some secs := by
        unfold subI64
        rw [if_pos (by unfold IsI64; omega), Option.some_inj]
        omega
      have hnanos : subI64 1000000000 ((1000000000 - nanos.val : ℕ) : ℤ) =
          some (nanos.val : ℤ) := by
        unfold subI64
        rw [if_pos (by unfold IsI64; omega), Option.some_inj]
        omega
      rw [if_neg hzero, if_neg (fun h => hzero h.2)]
      simp only [hval]
      rw [if_neg (by omega), hcast, hneg]
      simp only [Option.bind_eq_bind, Option.bind_some, hsub, hnanos]

/-- The encoder of `passthrough.rs` keeps a time from the epoch on. -/
lemma toTimespec_of_nonneg {secs : ℤ} (hsecs : IsI64 secs) (h₀ : 0 ≤ secs)
    (nanos : Fin 1000000000) : toTimespec (some ⟨secs, nanos⟩) = (secs, (nanos.val : ℤ)) := by
  have hcast : asI64 secs.toNat = secs := by
    unfold IsI64 at hsecs
    rw [asI64_of_lt (by omega)]
    exact Int.toNat_of_nonneg h₀
  unfold toTimespec
  simp only [durationSince_epoch]
  unfold sinceEpoch
  simp only [if_pos h₀, hcast]

/-- A time before the epoch becomes the epoch. -/
lemma toTimespec_of_neg {secs : ℤ} (hneg : secs < 0) (nanos : Fin 1000000000) :
    toTimespec (some ⟨secs, nanos⟩) = (0, 0) := by
  unfold toTimespec
  simp only [durationSince_epoch]
  unfold sinceEpoch
  simp only [if_neg (show ¬ 0 ≤ secs by omega)]
  by_cases hzero : nanos = 0
  · simp only [hzero, if_true]
  · simp only [hzero, if_false]

/-! ## Round trips -/

/-- A timestamp that is set through the passthrough helpers is kept if and only if it is not before
the epoch. -/
theorem set_timestamp_kept_iff {secs nsecs : ℤ} (hsecs : IsI64 secs) (hmin : -2 ^ 63 < secs)
    (hnsecs : 0 ≤ nsecs) (hnsecs' : nsecs < 1000000000) :
    (secsNsecsToSystemTime secs nsecs).map (fun t => toTimespec (some t)) = some (secs, nsecs) ↔
      0 ≤ secs := by
  obtain ⟨nanos, rfl⟩ := exists_nanos hnsecs hnsecs'
  rw [secsNsecsToSystemTime_eq hsecs (by omega), Option.map_some, Option.some_inj]
  constructor
  · intro h
    by_contra hneg
    rw [toTimespec_of_neg (by omega)] at h
    have hzero : 0 = secs := congrArg Prod.fst h
    omega
  · intro h₀
    exact toTimespec_of_nonneg hsecs h₀ nanos

theorem set_timestamp_kept_iff_half :
    (secsNsecsToSystemTime (-1) 500000000).map (fun t => toTimespec (some t)) =
        some (-1, 500000000) ↔ (0 : ℤ) ≤ -1 :=
  set_timestamp_kept_iff (by decide) (by decide) (by decide) (by decide)

/-- Half a second before the epoch is set as the epoch. -/
theorem set_timestamp_not_kept :
    ¬ ∀ secs nsecs : ℤ, IsI64 secs → -2 ^ 63 < secs → 0 ≤ nsecs →
      nsecs < 1000000000 →
      (secsNsecsToSystemTime secs nsecs).map (fun t => toTimespec (some t)) =
        some (secs, nsecs) := by
  intro h
  have hhalf := h (-1) 500000000 (by decide) (by decide) (by decide) (by decide)
  revert hhalf
  decide

/-- Decoding and encoding are inverse and do not overflow, except at the least number of
seconds. -/
theorem timestamp_codec_iff {secs nsecs : ℤ} (hsecs : IsI64 secs) (hnsecs : 0 ≤ nsecs)
    (hnsecs' : nsecs < 1000000000) {t : SystemTime} (ht : t.Representable) :
    ((secsNsecsToSystemTime secs nsecs).bind systemTimeToSecsNsecs = some (secs, nsecs) ↔
      secs ≠ -2 ^ 63) ∧
    ((systemTimeToSecsNsecs t).bind (fun r => secsNsecsToSystemTime r.1 r.2) = some t ↔
      t.secs ≠ -2 ^ 63) := by
  constructor
  · obtain ⟨nanos, rfl⟩ := exists_nanos hnsecs hnsecs'
    constructor
    · intro h hmin
      rw [hmin, secsNsecsToSystemTime_min] at h
      cases h
    · intro hmin
      rw [secsNsecsToSystemTime_eq hsecs hmin, Option.bind_some,
        systemTimeToSecsNsecs_eq (representable_mk hsecs nanos), if_neg (fun h => hmin h.1)]
  · constructor
    · intro h hmin
      rw [systemTimeToSecsNsecs_eq ht] at h
      split at h
      · cases h
      · rw [Option.bind_some, hmin, secsNsecsToSystemTime_min] at h
        cases h
    · intro hmin
      rw [systemTimeToSecsNsecs_eq ht, if_neg (fun h => hmin h.1), Option.bind_some]
      exact secsNsecsToSystemTime_eq ht hmin t.nanos

/-- Half a second before the epoch is decoded and encoded without loss. -/
theorem timestamp_codec_half :
    (secsNsecsToSystemTime (-1) 500000000).bind systemTimeToSecsNsecs = some (-1, 500000000) :=
  ((timestamp_codec_iff (by decide) (by decide) (by decide)
    (t := ⟨-1, ⟨500000000, by decide⟩⟩) (by decide)).1).mpr (by decide)

/-- The magnitude of the least number of seconds overflows. -/
theorem timestamp_codec_overflows :
    ¬ ∀ secs nsecs : ℤ, IsI64 secs → 0 ≤ nsecs → nsecs < 1000000000 →
      (secsNsecsToSystemTime secs nsecs).bind systemTimeToSecsNsecs = some (secs, nsecs) := by
  intro h
  have hmin := h (-2 ^ 63) 0 (by decide) (by decide) (by decide)
  rw [secsNsecsToSystemTime_min] at hmin
  cases hmin

/-- The two decoders agree, the one of `passthrough.rs` never falls back to the epoch, and the
encoder of `conv.rs` takes the time back to its seconds and nanoseconds. -/
theorem decoders_agree {secs nanos : ℤ} (hsecs : IsI64 secs) (hmin : -2 ^ 63 < secs)
    (hnanos : 0 ≤ nanos) (hnanos' : nanos < 1000000000) :
    (∃ t, systemTimeFromSecs secs nanos = some t ∧ secsNsecsToSystemTime secs nanos = some t ∧
      systemTimeToSecsNsecs t = some (secs, nanos)) ∧
    (secs < 0 → ∃ d, untilEpoch secs nanos = some d ∧ (epoch.checkedSub d).isSome) := by
  obtain ⟨n, rfl⟩ := exists_nanos hnanos hnanos'
  constructor
  · refine ⟨⟨secs, n⟩, systemTimeFromSecs_eq hsecs n,
      secsNsecsToSystemTime_eq hsecs (by omega) n, ?_⟩
    rw [systemTimeToSecsNsecs_eq (representable_mk hsecs n), if_neg]
    intro h
    have hsecs_eq : secs = -2 ^ 63 := h.1
    omega
  · intro hneg
    obtain ⟨d, hd, hsub⟩ := checkedSub_untilEpoch hsecs hneg n
    exact ⟨d, hd, by rw [hsub]; rfl⟩

theorem decoders_agree_half :
    (∃ t, systemTimeFromSecs (-1) 500000000 = some t ∧
      secsNsecsToSystemTime (-1) 500000000 = some t ∧
      systemTimeToSecsNsecs t = some (-1, 500000000)) ∧
    ((-1 : ℤ) < 0 →
      ∃ d, untilEpoch (-1) 500000000 = some d ∧ (epoch.checkedSub d).isSome) :=
  decoders_agree (by decide) (by decide) (by decide) (by decide)

end TypedFuse
