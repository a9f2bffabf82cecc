import TypedFuse.Data.Splitting
import TypedFuse.Core.Types

/-!
# Mount options

The arguments that `Session::new_with_config` passes to libfuse.  The options are rendered and
joined with commas into one argument of `-o`, which libfuse splits at the commas; there a backslash
escapes the next character.  The values are rendered as they are.
-/

namespace TypedFuse

open Splitting

/-- A text, as its characters. -/
abbrev Text : Type := List Char

/-- `MountOption`. -/
inductive MountOption where
  | readOnly
  | allowOther
  | autoUnmount
  | defaultPermissions
  | fsName (name : Text)
  | subtype (name : Text)
  | custom (opt : Text)
  deriving DecidableEq

namespace MountOption

/-- `MountOption::render`. -/
def render : MountOption → Text
  | readOnly => "ro".toList
  | allowOther => "allow_other".toList
  | autoUnmount => "auto_unmount".toList
  | defaultPermissions => "default_permissions".toList
  | fsName name => "fsname=".toList ++ name
  | subtype name => "subtype=".toList ++ name
  | custom opt => opt

/-- The text that an option brings along. -/
def value : MountOption → Text
  | fsName name => name
  | subtype name => name
  | custom opt => opt
  | _ => []

/-- The text that is put before it. -/
def key : MountOption → Text
  | readOnly => "ro".toList
  | allowOther => "allow_other".toList
  | autoUnmount => "auto_unmount".toList
  | defaultPermissions => "default_permissions".toList
  | fsName _ => "fsname=".toList
  | subtype _ => "subtype=".toList
  | custom _ => []

/-- The option is not custom. -/
def IsKnown : MountOption → Prop
  | custom _ => False
  | _ => True

instance : DecidablePred IsKnown
  | custom _ => .isFalse id
  | readOnly | allowOther | autoUnmount | defaultPermissions | fsName _ | subtype _ =>
      .isTrue trivial

end MountOption

open MountOption

/-! ## The arguments -/

/-- The arguments before they become C strings. -/
def argStrings (options : List MountOption) : List Text :=
  "fuse3".toList ::
    if options = [] then [] else ["-o".toList, [','].intercalate (options.map render)]

/-- The arguments of `Session::new_with_config`; a zero character makes it panic. -/
def mountArgs (options : List MountOption) : Option (List Text) :=
  if ∀ s ∈ argStrings options, Char.ofNat 0 ∉ s then some (argStrings options) else none

/-- What libfuse makes of the arguments: it splits the one behind `-o`. -/
def libfuseOptions : List Text → List Text
  | [_, opt, group] => if opt = "-o".toList then split ',' '\\' group else []
  | _ => []

/-- libfuse finds the options that were given, one for one. -/
def OptionsKept (options : List MountOption) : Prop :=
  ∃ args, mountArgs options = some args ∧ libfuseOptions args = options.map render

instance (options : List MountOption) : Decidable (OptionsKept options) :=
  match h : mountArgs options with
  | some args => decidable_of_iff (libfuseOptions args = options.map render) (by
      unfold OptionsKept
      rw [h]
      exact ⟨fun hkept => ⟨args, rfl, hkept⟩,
        by rintro ⟨_, ⟨⟩, hkept⟩; exact hkept⟩)
  | none => .isFalse (by
      unfold OptionsKept
      rw [h]
      rintro ⟨_, ⟨⟩, _⟩)

/-- No value has a comma, and no value has a backslash, except as the very last character of the
argument. -/
structure Harmless (options : List MountOption) : Prop where
  comma : ∀ o ∈ options, ',' ∉ o.value
  backslash : ∀ o ∈ options.dropLast, '\\' ∉ o.value
  last : ∀ o ∈ options.getLast?, '\\' ∉ o.value.dropLast

/-! ## Rendering -/

lemma render_eq (o : MountOption) : o.render = o.key ++ o.value := by
  cases o <;> rfl

lemma key_plain (o : MountOption) :
    Char.ofNat 0 ∉ o.key ∧ ',' ∉ o.key ∧ '\\' ∉ o.key := by
  cases o with
  | readOnly => decide
  | allowOther => decide
  | autoUnmount => decide
  | defaultPermissions => decide
  | fsName name =>
    show Char.ofNat 0 ∉ "fsname=".toList ∧ ',' ∉ "fsname=".toList ∧
      '\\' ∉ "fsname=".toList
    decide
  | subtype name =>
    show Char.ofNat 0 ∉ "subtype=".toList ∧ ',' ∉ "subtype=".toList ∧
      '\\' ∉ "subtype=".toList
    decide
  | custom opt => exact ⟨List.not_mem_nil, List.not_mem_nil, List.not_mem_nil⟩

lemma not_mem_render {c : Char} {o : MountOption} (h : c ∉ o.key) :
    c ∉ o.render ↔ c ∉ o.value := by
  rw [render_eq, List.mem_append, not_or]
  exact and_iff_right h

/-- A text without a zero character passes. -/
lemma mountArgs_eq {options : List MountOption} (h : ∀ o ∈ options, Char.ofNat 0 ∉ o.value) :
    mountArgs options = some (argStrings options) := by
  unfold mountArgs
  rw [if_pos]
  intro s hs
  unfold argStrings at hs
  rcases List.mem_cons.mp hs with rfl | hs
  · decide
  · split at hs
    · exact absurd hs List.not_mem_nil
    · rcases List.mem_cons.mp hs with rfl | hs
      · decide
      · rw [List.mem_singleton.mp hs]
        intro hmem
        obtain ⟨t, ht, hmem⟩ := mem_intercalate_singleton (by decide) hmem
        obtain ⟨o, ho, rfl⟩ := List.mem_map.mp ht
        exact (not_mem_render (key_plain o).1).mpr (h o ho) hmem

/-! ## What libfuse finds -/

/-- The rendered text ends as the value does. -/
lemma not_mem_dropLast_render {o : MountOption} :
    '\\' ∉ o.render.dropLast ↔ '\\' ∉ o.value.dropLast := by
  rw [render_eq]
  by_cases hnil : o.value = []
  · rw [hnil, List.append_nil, List.dropLast_nil]
    constructor
    · intro _
      exact List.not_mem_nil
    · intro _ hmem
      exact (key_plain o).2.2 (List.mem_of_mem_dropLast hmem)
  · rw [List.dropLast_append_of_ne_nil hnil, List.mem_append, not_or]
    exact and_iff_right (key_plain o).2.2

/-- libfuse finds the options of a list that was passed if and only if the values are harmless. -/
lemma split_iff_harmless {options : List MountOption} (hne : options ≠ []) :
    split ',' '\\' ([','].intercalate (options.map render)) = options.map render ↔
      Harmless options := by
  rw [split_intercalate_iff (by decide) (by simpa using hne),
    mem_dropLast_intercalate_iff (by decide), not_or]
  constructor
  · rintro ⟨hcomma, hback, hlast⟩
    constructor
    · intro o ho
      exact (not_mem_render (key_plain o).2.1).mp (hcomma _ (List.mem_map_of_mem ho))
    · intro o ho hmem
      apply hback
      refine ⟨o.render, ?_, ?_⟩
      · rw [← List.map_dropLast]
        exact List.mem_map_of_mem ho
      · exact not_not.mp (mt (not_mem_render (key_plain o).2.2).mp (not_not.mpr hmem))
    · intro o ho
      rw [← not_mem_dropLast_render]
      intro hmem
      apply hlast
      refine ⟨o.render, ?_, hmem⟩
      rw [List.getLast?_map, Option.mem_def.mp ho]
      rfl
  · rintro ⟨hcomma, hback, hlast⟩
    refine ⟨?_, ?_, ?_⟩
    · intro t ht
      obtain ⟨o, ho, rfl⟩ := List.mem_map.mp ht
      exact (not_mem_render (key_plain o).2.1).mpr (hcomma o ho)
    · rintro ⟨t, ht, hmem⟩
      rw [← List.map_dropLast] at ht
      obtain ⟨o, ho, rfl⟩ := List.mem_map.mp ht
      exact (not_mem_render (key_plain o).2.2).mpr (hback o ho) hmem
    · rintro ⟨t, ht, hmem⟩
      rw [List.getLast?_map] at ht
      obtain ⟨o, ho, rfl⟩ := Option.mem_map.mp ht
      exact not_mem_dropLast_render.mpr (hlast o ho) hmem

/-- Without zero characters, libfuse finds the options that were given if and only if their values
are harmless. -/
theorem options_kept_iff {options : List MountOption}
    (hnul : ∀ o ∈ options, Char.ofNat 0 ∉ o.value) :
    OptionsKept options ↔ Harmless options := by
  unfold OptionsKept
  rw [mountArgs_eq hnul]
  by_cases hne : options = []
  · subst hne
    constructor
    · intro _
      exact ⟨by simp, by simp, by simp⟩
    · intro _
      exact ⟨_, rfl, rfl⟩
  · rw [← split_iff_harmless hne]
    unfold argStrings
    rw [if_neg hne]
    constructor
    · rintro ⟨args, hargs, hkept⟩
      rw [← Option.some_inj.mp hargs] at hkept
      exact hkept
    · intro hkept
      exact ⟨_, rfl, hkept⟩

theorem options_kept_iff_named :
    OptionsKept [.fsName "disk".toList, .allowOther] ↔
      Harmless [.fsName "disk".toList, .allowOther] :=
  options_kept_iff (by decide)

/-- A name with a comma adds an option. -/
theorem options_injected :
    ¬ ∀ options : List MountOption, (∀ o ∈ options, o.IsKnown) →
      (∀ o ∈ options, Char.ofNat 0 ∉ o.value) → OptionsKept options := by
  intro h
  have hkept := h [.fsName "x,allow_other".toList] (by decide) (by decide)
  revert hkept
  decide

end TypedFuse
