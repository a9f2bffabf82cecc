import TypedFuse.Codec.Time

/-!
# Who may set times

`utimens_permission_check` of `passthrough.rs`, with the current time as an argument, and the rule
of POSIX that it is to follow: whoever is neither root nor the owner may only set the current time,
and only if the one permission class that applies to them grants write.
-/

namespace TypedFuse

/-! ## The check -/

/-- `Duration::MAX`. -/
def Duration.max : Duration := ⟨2 ^ 64 - 1, 999999999⟩

/-- `Duration::from_millis`. -/
def Duration.fromMillis (ms : ℕ) : Duration :=
  .ofTicks (ms * 1000000)

/-- `unwrap_or(Duration::MAX)`. -/
def Duration.unwrapOrMax : Except Duration Duration → Duration
  | .ok d => d
  | .error _ => .max

/-- `near_now`: a time less than 10 ms before or after the current one. -/
def nearNow (now t : SystemTime) : Bool :=
  (Duration.unwrapOrMax (now.durationSince t)).ticks < (Duration.fromMillis 10).ticks ∨
    (Duration.unwrapOrMax (t.durationSince now)).ticks < (Duration.fromMillis 10).ticks

/-- `is_none_or`. -/
def isNoneOr (p : SystemTime → Bool) : Option SystemTime → Bool
  | none => true
  | some t => p t

/-- `has_write`, in `utimens_permission_check`. -/
def hasWrite (caller : Caller) (fileUid fileGid mode : ℕ) : Bool :=
  (caller.uid = fileUid ∧ mode &&& 0o200 ≠ 0) ∨
  (caller.gid = fileGid ∧ mode &&& 0o020 ≠ 0) ∨
    mode &&& 0o002 ≠ 0

/-- `utimens_permission_check`. -/
def utimensPermissionCheck (now : SystemTime) (caller : Caller) (fileUid fileGid mode : ℕ)
    (atime mtime : Option SystemTime) : Except Errno Unit :=
  if caller.uid = 0 then .ok ()
  else if caller.uid = fileUid then .ok ()
  else if !atime.isSome && !mtime.isSome then .ok ()
  else if isNoneOr (nearNow now) atime && isNoneOr (nearNow now) mtime then
    if hasWrite caller fileUid fileGid mode then .ok () else .error .EACCES
  else .error .EPERM

/-! ## The rule -/

/-- Two times are less than 10 ms apart. -/
def WithinTenMs (t u : SystemTime) : Prop :=
  |t.ticks - u.ticks| < 10000000

instance (t u : SystemTime) : Decidable (WithinTenMs t u) :=
  inferInstanceAs (Decidable (_ < _))

/-- The one class that applies to a caller that is not the owner grants write. -/
def ClassGrantsWrite (gid fileGid mode : ℕ) : Prop :=
  if gid = fileGid then mode &&& 0o020 ≠ 0 else mode &&& 0o002 ≠ 0

instance (gid fileGid mode : ℕ) : Decidable (ClassGrantsWrite gid fileGid mode) :=
  inferInstanceAs
    (Decidable (if gid = fileGid then mode &&& 0o020 ≠ 0 else mode &&& 0o002 ≠ 0))

/-- The caller is root or the owner, or sets nothing. -/
def Exempt (caller : Caller) (fileUid : ℕ) (atime mtime : Option SystemTime) : Prop :=
  caller.uid = 0 ∨ caller.uid = fileUid ∨ (atime = none ∧ mtime = none)

instance (caller : Caller) (fileUid : ℕ) (atime mtime : Option SystemTime) :
    Decidable (Exempt caller fileUid atime mtime) :=
  inferInstanceAs (Decidable (_ ∨ _ ∨ _ ∧ _))

/-- All times that are set are the current one. -/
def SetsNow (now : SystemTime) (atime mtime : Option SystemTime) : Prop :=
  ∀ t, atime = some t ∨ mtime = some t → WithinTenMs now t

/-- An answer is the one that the permission classes of POSIX ask for. -/
structure FollowsClasses (now : SystemTime) (caller : Caller) (fileUid fileGid mode : ℕ)
    (atime mtime : Option SystemTime) (answer : Except Errno Unit) : Prop where
  exempt : Exempt caller fileUid atime mtime → answer = .ok ()
  other_time : ¬ Exempt caller fileUid atime mtime → ¬ SetsNow now atime mtime →
    answer = .error .EPERM
  granted : ¬ Exempt caller fileUid atime mtime → SetsNow now atime mtime →
    ClassGrantsWrite caller.gid fileGid mode → answer = .ok ()
  refused : ¬ Exempt caller fileUid atime mtime → SetsNow now atime mtime →
    ¬ ClassGrantsWrite caller.gid fileGid mode → answer = .error .EACCES

/-- A member of the file's group sets the current time, the group may not write and others may. -/
structure FallsThrough (now : SystemTime) (caller : Caller) (fileUid fileGid mode : ℕ)
    (atime mtime : Option SystemTime) : Prop where
  not_exempt : ¬ Exempt caller fileUid atime mtime
  sets_now : SetsNow now atime mtime
  member : caller.gid = fileGid
  group : mode &&& 0o020 = 0
  others : mode &&& 0o002 ≠ 0

/-! ## What the check tests -/

lemma ticks_max_not_lt : ¬ Duration.max.ticks < (Duration.fromMillis 10).ticks := by
  decide

lemma ticks_fromMillis : (Duration.fromMillis 10).ticks = 10000000 := by
  decide

/-- A span counts as short if it does not go back and is below 10 ms. -/
lemma short_iff (t u : SystemTime) :
    (Duration.unwrapOrMax (t.durationSince u)).ticks < (Duration.fromMillis 10).ticks ↔
      u.ticks ≤ t.ticks ∧ t.ticks - u.ticks < 10000000 := by
  unfold SystemTime.durationSince
  by_cases hle : u.ticks ≤ t.ticks
  · have hspan : (Duration.unwrapOrMax (.ok (.ofTicks (t.ticks - u.ticks).toNat))).ticks =
        (t.ticks - u.ticks).toNat := Duration.ticks_ofTicks _
    rw [if_pos hle, hspan, ticks_fromMillis]
    omega
  · rw [if_neg hle]
    constructor
    · intro h
      exact absurd h ticks_max_not_lt
    · intro h
      exact absurd h.1 hle

/-- A window around a point, from either side. -/
lemma window_iff (n m : ℤ) :
    m ≤ n ∧ n - m < 10000000 ∨ n ≤ m ∧ m - n < 10000000 ↔
      -10000000 < n - m ∧ n - m < 10000000 := by
  omega

lemma withinTenMs_iff (t u : SystemTime) :
    WithinTenMs t u ↔ -10000000 < t.ticks - u.ticks ∧ t.ticks - u.ticks < 10000000 :=
  abs_lt

lemma nearNow_iff (now t : SystemTime) : nearNow now t = true ↔ WithinTenMs now t := by
  have hshort := or_congr (short_iff now t) (short_iff t now)
  have hwindow := window_iff now.ticks t.ticks
  have hwithin := (withinTenMs_iff now t).symm
  unfold nearNow
  exact decide_eq_true_iff.trans ((hshort.trans hwindow).trans hwithin)

lemma isNoneOr_iff (p : SystemTime → Bool) (time : Option SystemTime) :
    isNoneOr p time = true ↔ ∀ t, time = some t → p t = true := by
  cases time with
  | none => exact ⟨fun _ t ht => (Option.some_ne_none t ht.symm).elim, fun _ => rfl⟩
  | some u =>
    constructor
    · intro h t ht
      rw [← Option.some_inj.mp ht]
      exact h
    · intro h
      exact h u rfl

lemma setsNow_iff (now : SystemTime) (atime mtime : Option SystemTime) :
    (isNoneOr (nearNow now) atime && isNoneOr (nearNow now) mtime) = true ↔
      SetsNow now atime mtime := by
  have hatime := isNoneOr_iff (nearNow now) atime
  have hmtime := isNoneOr_iff (nearNow now) mtime
  constructor
  · intro h t ht
    obtain ⟨ha, hm⟩ := Bool.and_eq_true_iff.mp h
    obtain ht | ht := ht
    · exact (nearNow_iff now t).mp (hatime.mp ha t ht)
    · exact (nearNow_iff now t).mp (hmtime.mp hm t ht)
  · intro h
    apply Bool.and_eq_true_iff.mpr
    constructor
    · exact hatime.mpr fun t ht => (nearNow_iff now t).mpr (h t (.inl ht))
    · exact hmtime.mpr fun t ht => (nearNow_iff now t).mpr (h t (.inr ht))

/-- For a caller that is not the owner, the code lets either class grant write. -/
lemma hasWrite_iff {caller : Caller} {fileUid : ℕ} (howner : caller.uid ≠ fileUid)
    (fileGid mode : ℕ) : hasWrite caller fileUid fileGid mode = true ↔
      (caller.gid = fileGid ∧ mode &&& 0o020 ≠ 0) ∨ mode &&& 0o002 ≠ 0 := by
  unfold hasWrite
  rw [decide_eq_true_iff]
  constructor
  · rintro (⟨h, -⟩ | h)
    · exact absurd h howner
    · exact h
  · exact .inr

lemma check_of_exempt {now : SystemTime} {caller : Caller} {fileUid fileGid mode : ℕ}
    {atime mtime : Option SystemTime} (h : Exempt caller fileUid atime mtime) :
    utimensPermissionCheck now caller fileUid fileGid mode atime mtime = .ok () := by
  unfold utimensPermissionCheck
  split_ifs with hroot howner hnone hnow hwrite
  · rfl
  · rfl
  · rfl
  · rfl
  all_goals
    obtain h | h | ⟨rfl, rfl⟩ := h
    · exact absurd h hroot
    · exact absurd h howner
    · exact absurd rfl hnone

/-- The answer to a caller that is not exempt. -/
lemma check_of_not_exempt {now : SystemTime} {caller : Caller} {fileUid fileGid mode : ℕ}
    {atime mtime : Option SystemTime} (h : ¬ Exempt caller fileUid atime mtime) :
    utimensPermissionCheck now caller fileUid fileGid mode atime mtime =
      if isNoneOr (nearNow now) atime && isNoneOr (nearNow now) mtime then
        if hasWrite caller fileUid fileGid mode then .ok () else .error .EACCES
      else .error .EPERM := by
  unfold Exempt at h
  push Not at h
  obtain ⟨hroot, howner, hsome⟩ := h
  unfold utimensPermissionCheck
  rw [if_neg hroot, if_neg howner, if_neg]
  cases atime with
  | some t => exact Bool.false_ne_true
  | none =>
    cases mtime with
    | some t => exact Bool.false_ne_true
    | none => exact absurd rfl (hsome rfl)

/-- The check follows the permission classes exactly if it does not fall through from the class of
the group to the one of others. -/
theorem check_follows_classes_iff (now : SystemTime) (caller : Caller) (fileUid fileGid mode : ℕ)
    (atime mtime : Option SystemTime) :
    FollowsClasses now caller fileUid fileGid mode atime mtime
        (utimensPermissionCheck now caller fileUid fileGid mode atime mtime) ↔
      ¬ FallsThrough now caller fileUid fileGid mode atime mtime := by
  by_cases hexempt : Exempt caller fileUid atime mtime
  · constructor
    · intro _ hfall
      exact hfall.not_exempt hexempt
    · intro _
      constructor
      · intro _
        exact check_of_exempt hexempt
      · intro h
        exact absurd hexempt h
      · intro h
        exact absurd hexempt h
      · intro h
        exact absurd hexempt h
  have howner : caller.uid ≠ fileUid := fun h => hexempt (.inr (.inl h))
  rw [check_of_not_exempt hexempt]
  by_cases hnow : SetsNow now atime mtime
  · rw [if_pos ((setsNow_iff now atime mtime).mpr hnow)]
    have hwrite := hasWrite_iff howner fileGid mode
    constructor
    · intro h hfall
      have hrefused := h.refused hexempt hnow (by
        unfold ClassGrantsWrite
        rw [if_pos hfall.member]
        exact not_not.mpr hfall.group)
      rw [if_pos (hwrite.mpr (.inr hfall.others))] at hrefused
      cases hrefused
    · intro hfall
      have hclass : hasWrite caller fileUid fileGid mode = true ↔
          ClassGrantsWrite caller.gid fileGid mode := by
        rw [hwrite]
        unfold ClassGrantsWrite
        by_cases hmember : caller.gid = fileGid
        · rw [if_pos hmember]
          constructor
          · rintro (⟨-, hgroup⟩ | hothers)
            · exact hgroup
            · by_contra hgroup
              exact hfall ⟨hexempt, hnow, hmember, hgroup, hothers⟩
          · intro hgroup
            exact .inl ⟨hmember, hgroup⟩
        · rw [if_neg hmember]
          constructor
          · rintro (⟨h, -⟩ | hothers)
            · exact absurd h hmember
            · exact hothers
          · exact .inr
      constructor
      · intro h
        exact absurd h hexempt
      · intro _ h
        exact absurd hnow h
      · intro _ _ hgrants
        rw [if_pos (hclass.mpr hgrants)]
      · intro _ _ hgrants
        rw [if_neg (mt hclass.mp hgrants)]
  · rw [if_neg (mt (setsNow_iff now atime mtime).mp hnow)]
    constructor
    · intro _ hfall
      exact hnow hfall.sets_now
    · intro _
      constructor
      · intro h
        exact absurd h hexempt
      · intro _ _
        rfl
      · intro _ h
        exact absurd h hnow
      · intro _ h
        exact absurd h hnow

/-- A member of the group, which may not write, sets the current time of a file that others may
write. -/
theorem group_member_let_in :
    ¬ ∀ (now : SystemTime) (caller : Caller) (fileUid fileGid mode : ℕ)
      (atime mtime : Option SystemTime),
      FollowsClasses now caller fileUid fileGid mode atime mtime
        (utimensPermissionCheck now caller fileUid fileGid mode atime mtime) := by
  intro h
  have hrefused := (h .epoch { uid := 2000, gid := 1000 } 1000 1000 0o606 (some .epoch)
    (some .epoch)).refused (by decide) (by
      intro t ht
      obtain h | h := ht <;> (rw [← Option.some_inj.mp h]; decide)) (by decide)
  revert hrefused
  decide

end TypedFuse
