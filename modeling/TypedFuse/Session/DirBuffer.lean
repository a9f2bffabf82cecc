import TypedFuse.Core.Runtime
import TypedFuse.Data.Paging
import TypedFuse.Codec.Timestamp

/-!
# Directory replies

`DirBuffer` of `ffi.rs`, the reply of `readdir` and `readdirplus`: a buffer of a given capacity that
takes one record after the other and refuses the first that does not fit.  The records are written
by libfuse, which is not part of the repository; a `Format` is what is used of it: the size of a
record, its bytes, and how the kernel reads them back.  `Format.Lawful` is what is assumed of it,
for the entries at hand.
-/

namespace TypedFuse

open TypedFuse.Runtime

/-! ## Conversions -/

/-- `kind_to_mode_bits`. -/
def kindToModeBits : FileKind → ℕ
  | .regularFile => 0o100000
  | .directory => 0o040000
  | .symlink => 0o120000
  | .charDevice => 0o020000
  | .blockDevice => 0o060000
  | .namedPipe => 0o010000
  | .socket => 0o140000

/-- The raw `stat` of libfuse, with times as seconds and nanoseconds. -/
structure Stat where
  ino : ℕ := 0
  mode : ℕ := 0
  nlink : ℕ := 0
  uid : ℕ := 0
  gid : ℕ := 0
  rdev : ℕ := 0
  size : ℤ := 0
  blocks : ℤ := 0
  blksize : ℤ := 0
  atime : ℤ × ℤ := (0, 0)
  mtime : ℤ × ℤ := (0, 0)
  ctime : ℤ × ℤ := (0, 0)
  deriving DecidableEq

/-- `attr_to_stat`, for the layout of Linux. -/
def attrToStat (ino : ℕ) (attr : NodeAttr) : Option Stat := do
  let atime ← systemTimeToSecsNsecs attr.atime
  let mtime ← systemTimeToSecsNsecs attr.mtime
  let ctime ← systemTimeToSecsNsecs attr.ctime
  return {
    ino := ino
    mode := kindToModeBits attr.kind ||| (attr.perm &&& 0o7777)
    nlink := attr.nlink
    uid := attr.uid
    gid := attr.gid
    rdev := attr.rdev
    size := asI64 attr.size
    blocks := asI64 attr.blocks
    blksize := attr.blksize
    atime := atime
    mtime := mtime
    ctime := ctime }

/-- `fuse_entry_param`. -/
structure EntryParam where
  ino : ℕ
  generation : ℕ
  attr : Stat
  attrTimeout : Duration
  entryTimeout : Duration
  deriving DecidableEq

/-- `entry_to_entry_param`. -/
def entryToEntryParam (ino generation : ℕ) (attr : NodeAttr) (ttl : Duration) :
    Option EntryParam := do
  let st ← attrToStat ino attr
  return {
    ino := ino
    generation := generation
    attr := st
    attrTimeout := ttl
    entryTimeout := ttl }

/-- The conversion of the times does not overflow. -/
def NodeAttr.Convertible (attr : NodeAttr) : Prop :=
  (systemTimeToSecsNsecs attr.atime).isSome ∧ (systemTimeToSecsNsecs attr.mtime).isSome ∧
    (systemTimeToSecsNsecs attr.ctime).isSome

instance (attr : NodeAttr) : Decidable attr.Convertible :=
  inferInstanceAs (Decidable (_ ∧ _ ∧ _))

lemma isSome_entryToEntryParam (ino generation : ℕ) (attr : NodeAttr) (ttl : Duration) :
    (entryToEntryParam ino generation attr ttl).isSome ↔ attr.Convertible := by
  unfold entryToEntryParam attrToStat NodeAttr.Convertible
  cases systemTimeToSecsNsecs attr.atime with
  | none => simp
  | some _ =>
    cases systemTimeToSecsNsecs attr.mtime with
    | none => simp
    | some _ =>
      cases systemTimeToSecsNsecs attr.ctime with
      | none => simp
      | some _ => simp

/-- What is converted is the inode and the type. -/
lemma attr_entryToEntryParam {ino generation : ℕ} {attr : NodeAttr} {ttl : Duration}
    {param : EntryParam} (h : entryToEntryParam ino generation attr ttl = some param) :
    param.attr.ino = ino ∧
      param.attr.mode = kindToModeBits attr.kind ||| (attr.perm &&& 0o7777) := by
  obtain ⟨st, hst, heq⟩ := Option.bind_eq_some_iff.mp h
  obtain rfl := Option.some.inj heq
  obtain ⟨atime, _, hst⟩ := Option.bind_eq_some_iff.mp hst
  obtain ⟨mtime, _, hst⟩ := Option.bind_eq_some_iff.mp hst
  obtain ⟨ctime, _, hst⟩ := Option.bind_eq_some_iff.mp hst
  obtain rfl := Option.some.inj hst
  exact ⟨rfl, rfl⟩

/-- Of the times of a `stat`, only the one that is exactly `2 ^ 63` seconds before the epoch is not
converted. -/
theorem NodeAttr.convertible_iff {attr : NodeAttr} (hatime : attr.atime.Representable)
    (hmtime : attr.mtime.Representable) (hctime : attr.ctime.Representable) :
    attr.Convertible ↔ attr.atime ≠ ⟨-2 ^ 63, 0⟩ ∧ attr.mtime ≠ ⟨-2 ^ 63, 0⟩ ∧
      attr.ctime ≠ ⟨-2 ^ 63, 0⟩ := by
  have hone : ∀ {t : SystemTime}, t.Representable →
      ((systemTimeToSecsNsecs t).isSome ↔ t ≠ ⟨-2 ^ 63, 0⟩) := by
    rintro ⟨secs, nanos⟩ ht
    rw [systemTimeToSecsNsecs_eq ht, Ne, SystemTime.mk.injEq]
    split
    · next h => exact ⟨fun hsome => (nomatch hsome), fun hne => absurd h hne⟩
    · next h => exact ⟨fun _ => h, fun _ => rfl⟩
  unfold NodeAttr.Convertible
  rw [hone hatime, hone hmtime, hone hctime]

/-! ## Records -/

/-- What the kernel reads of a directory record. -/
structure Dirent where
  name : Name
  ino : ℕ
  /-- The type, as in `d_type`. -/
  type : ℕ
  /-- Where the listing continues. -/
  off : ℤ
  deriving DecidableEq

/-- `fuse_add_direntry` and `fuse_add_direntry_plus`, for an argument of type `A`: the size they
answer with when there is no buffer, and what they write into a buffer of that size; and how the
kernel reads the first record of a reply. -/
structure Format (A : Type) where
  size : Name → ℕ
  write : Name → A → ℤ → List UInt8
  read : List UInt8 → Option (Dirent × List UInt8)

/-- Read at most `m` records. -/
def Format.readUpTo {A : Type} (fmt : Format A) : ℕ → List UInt8 → Option (List Dirent)
  | _, [] => some []
  | 0, _ :: _ => none
  | m + 1, b :: bytes =>
    match fmt.read (b :: bytes) with
    | some (d, rest) => (fmt.readUpTo m rest).map (d :: ·)
    | none => none

/-- Read a whole reply. -/
def Format.decode {A : Type} (fmt : Format A) (bytes : List UInt8) : Option (List Dirent) :=
  fmt.readUpTo bytes.length bytes

/-! ## The buffer -/

/-- `DirBuffer`. -/
structure DirBuffer where
  capacity : ℕ
  buf : List UInt8
  deriving DecidableEq

namespace DirBuffer

/-- `DirBuffer::new` and `DirBuffer::new_plus`. -/
def new (size : ℕ) : DirBuffer where
  capacity := size
  buf := []

/-- What both `add`s do with a record: a name with a zero byte is skipped, a record that does not
fit is refused, and any other is appended. -/
def put {A : Type} (fmt : Format A) (b : DirBuffer) (name : Name) (arg : A) (nextOffset : ℕ) :
    Bool × DirBuffer :=
  if 0 ∈ name then (true, b)
  else if b.buf.length + fmt.size name > b.capacity then (false, b)
  else (true, { b with buf := b.buf ++ fmt.write name arg (asI64 nextOffset) })

/-- `DirSink::add` of a `DirBuffer`. -/
def add (fmt : Format Stat) (b : DirBuffer) (e : DirEntry) : Bool × DirBuffer :=
  b.put fmt e.name { ino := e.id, mode := kindToModeBits e.kind } e.nextOffset

/-- `RuntimePlusSink::add` of a `DirBuffer`.  The entry is converted before its size is asked for,
and a conversion that overflows panics. -/
def addPlus (fmt : Format EntryParam) (ttl : Duration) (b : DirBuffer) (e : PlusEntry) :
    Option (Bool × DirBuffer) :=
  if 0 ∈ e.name then some (true, b)
  else do
    let param ← entryToEntryParam e.entry.ino e.entry.generation e.entry.attr ttl
    return b.put fmt e.name param e.nextOffset

/-- `RuntimePlusSink::add` as a sink, which has an answer to everything: it refuses the entries at
which `addPlus` panics. -/
def takePlus (fmt : Format EntryParam) (ttl : Duration) (b : DirBuffer) (e : PlusEntry) :
    Bool × DirBuffer :=
  (addPlus fmt ttl b e).getD (false, b)

/-- Only the conversion of an entry panics. -/
theorem isSome_addPlus (fmt : Format EntryParam) (ttl : Duration) (b : DirBuffer) (e : PlusEntry) :
    (addPlus fmt ttl b e).isSome ↔ 0 ∈ e.name ∨ e.entry.attr.Convertible := by
  rw [← isSome_entryToEntryParam e.entry.ino e.entry.generation e.entry.attr ttl]
  unfold addPlus
  split
  · next hnul => simp [hnul]
  · next hnul =>
    cases entryToEntryParam e.entry.ino e.entry.generation e.entry.attr ttl with
    | none => simp [hnul]
    | some _ => simp [hnul]

lemma takePlus_of_nul {fmt : Format EntryParam} {ttl : Duration} {b : DirBuffer} {e : PlusEntry}
    (h : 0 ∈ e.name) : takePlus fmt ttl b e = (true, b) := by
  unfold takePlus addPlus
  rw [if_pos h, Option.getD_some]

lemma takePlus_of_param {fmt : Format EntryParam} {ttl : Duration} {b : DirBuffer} {e : PlusEntry}
    {param : EntryParam} (h : 0 ∉ e.name)
    (hparam : entryToEntryParam e.entry.ino e.entry.generation e.entry.attr ttl = some param) :
    takePlus fmt ttl b e = b.put fmt e.name param e.nextOffset := by
  unfold takePlus addPlus
  rw [if_neg h, hparam]
  rfl

lemma takePlus_of_none {fmt : Format EntryParam} {ttl : Duration} {b : DirBuffer} {e : PlusEntry}
    (h : 0 ∉ e.name)
    (hparam : entryToEntryParam e.entry.ino e.entry.generation e.entry.attr ttl = none) :
    takePlus fmt ttl b e = (false, b) := by
  unfold takePlus addPlus
  rw [if_neg h, hparam]
  rfl

variable {X : Type}

/-- The buffer after entries were added. -/
def after (add : DirBuffer → X → Bool × DirBuffer) (b : DirBuffer) (offered : List X) :
    DirBuffer :=
  offered.foldl (fun b e => (add b e).2) b

/-- The buffer as the sink of a listing. -/
def sink (add : DirBuffer → X → Bool × DirBuffer) (b : DirBuffer) : Sink X :=
  fun offered e => (add (b.after add offered) e).1

lemma after_snoc (add : DirBuffer → X → Bool × DirBuffer) (b : DirBuffer) (offered : List X)
    (e : X) : b.after add (offered ++ [e]) = (add (b.after add offered) e).2 := by
  unfold after
  rw [List.foldl_append]
  rfl

end DirBuffer

/-! ## What a buffer holds -/

/-- An entry that a callback pushes: its name, its node, the data `D` and the cookie behind it. -/
structure Item (D : Type) where
  name : Name
  id : NodeId
  data : D
  nextOffset : ℕ

/-- The buffer writes an entry unless its name has a zero byte. -/
def Item.writable {D : Type} (e : Item D) : Bool :=
  0 ∉ e.name

/-- The type of a record, as the kernel reads it off a mode. -/
def typeOf (mode : ℕ) : ℕ :=
  (mode &&& S_IFMT) >>> 12

/-- How the kernel should read an entry whose data say its kind. -/
def Item.dirent {D : Type} (kind : D → FileKind) (e : Item D) : Dirent where
  name := e.name
  ino := e.id
  type := typeOf (kindToModeBits (kind e.data))
  off := e.nextOffset

/-- How the kernel reads an entry. -/
def Item.record {D : Type} (kind : D → FileKind) (e : Item D) : Dirent :=
  { e.dirent kind with off := asI64 e.nextOffset }

/-- Permission bits are not part of the type. -/
lemma typeOf_or (bits perm : ℕ) : typeOf (bits ||| (perm &&& 0o7777)) = typeOf bits := by
  have hperm : perm &&& 0o7777 &&& S_IFMT = 0 := by
    rw [Nat.and_assoc]
    exact Nat.and_zero perm
  unfold typeOf
  rw [Nat.and_or_distrib_right, hperm, Nat.or_zero]

variable {A D : Type}

/-- What is assumed of libfuse, for the arguments `W` that it is called with: the size is positive,
it is the length of what is written, and the kernel reads back the name, the inode, the type and the
offset, and leaves the bytes behind the record. -/
structure Format.Lawful (fmt : Format A) (stat : A → Stat) (W : Name → A → ℤ → Prop) :
    Prop where
  size_pos : ∀ name arg off, W name arg off → 0 < fmt.size name
  length_write : ∀ name arg off, W name arg off →
    (fmt.write name arg off).length = fmt.size name
  read_write : ∀ name arg off, W name arg off → ∀ rest,
    fmt.read (fmt.write name arg off ++ rest) =
      some (⟨name, (stat arg).ino, typeOf (stat arg).mode, off⟩, rest)

/-- The arguments with which libfuse is called for the entries of a list. -/
def Writes (Arg : Item D → A → Prop) (L : List (Item D)) (name : Name) (arg : A) (off : ℤ) :
    Prop :=
  ∃ e ∈ L, e.writable ∧ Arg e arg ∧ name = e.name ∧ off = asI64 e.nextOffset

/-- The bytes are the records of the entries, one after the other. -/
inductive Format.Wrote (fmt : Format A) (Arg : Item D → A → Prop) :
    List UInt8 → List (Item D) → Prop where
  | nil : Wrote fmt Arg [] []
  | cons {e : Item D} {arg : A} {bytes : List UInt8} {es : List (Item D)} :
      Arg e arg → Wrote fmt Arg bytes es →
      Wrote fmt Arg (fmt.write e.name arg (asI64 e.nextOffset) ++ bytes) (e :: es)

namespace Format.Wrote

variable {fmt : Format A} {Arg : Item D → A → Prop} {stat : A → Stat} {kind : D → FileKind}
  {L es es' : List (Item D)} {bytes bytes' : List UInt8}

lemma append (h : fmt.Wrote Arg bytes es) (h' : fmt.Wrote Arg bytes' es') :
    fmt.Wrote Arg (bytes ++ bytes') (es ++ es') := by
  induction h with
  | nil => exact h'
  | cons harg _ ih =>
    rw [List.append_assoc]
    exact .cons harg ih

lemma snoc {e : Item D} {arg : A} (h : fmt.Wrote Arg bytes es) (harg : Arg e arg) :
    fmt.Wrote Arg (bytes ++ fmt.write e.name arg (asI64 e.nextOffset)) (es ++ [e]) := by
  have hone : fmt.Wrote Arg (fmt.write e.name arg (asI64 e.nextOffset) ++ []) [e] := .cons harg .nil
  rw [List.append_nil] at hone
  exact h.append hone

/-- What was written has an argument. -/
lemma arg (h : fmt.Wrote Arg bytes es) {e : Item D} (he : e ∈ es) : ∃ arg, Arg e arg := by
  induction h with
  | nil => exact absurd he List.not_mem_nil
  | @cons e' arg bytes es harg _ ih =>
    rcases List.mem_cons.mp he with rfl | he
    · exact ⟨arg, harg⟩
    · exact ih he

variable (hfmt : fmt.Lawful stat (Writes Arg L)) (hsub : ∀ e ∈ es, e ∈ L ∧ e.writable)

include hfmt hsub

/-- The length of the records. -/
lemma length (h : fmt.Wrote Arg bytes es) :
    bytes.length = (es.map fun e => fmt.size e.name).sum := by
  induction h with
  | nil => rfl
  | @cons e arg bytes es harg _ ih =>
    have he := hsub e List.mem_cons_self
    rw [List.length_append, hfmt.length_write _ _ _ ⟨e, he.1, he.2, harg, rfl, rfl⟩,
      ih fun e' he' => hsub e' (List.mem_cons_of_mem e he'), List.map_cons, List.sum_cons]

/-- Every record has a byte. -/
lemma length_le (h : fmt.Wrote Arg bytes es) : es.length ≤ bytes.length := by
  induction h with
  | nil => exact le_rfl
  | @cons e arg bytes es harg _ ih =>
    have he := hsub e List.mem_cons_self
    have hW : Writes Arg L e.name arg (asI64 e.nextOffset) := ⟨e, he.1, he.2, harg, rfl, rfl⟩
    have hpos := hfmt.size_pos _ _ _ hW
    have hrest := ih fun e' he' => hsub e' (List.mem_cons_of_mem e he')
    rw [List.length_append, hfmt.length_write _ _ _ hW, List.length_cons]
    omega

/-- The kernel reads the entries back. -/
lemma readUpTo (hArg : ∀ e arg, Arg e arg → (stat arg).ino = e.id ∧
      typeOf (stat arg).mode = typeOf (kindToModeBits (kind e.data)))
    (h : fmt.Wrote Arg bytes es) {m : ℕ} (hm : es.length ≤ m) :
    fmt.readUpTo m bytes = some (es.map (Item.record kind)) := by
  induction h generalizing m with
  | nil =>
    cases m with
    | zero => rfl
    | succ m => rfl
  | @cons e arg bytes es harg _ ih =>
    have he := hsub e List.mem_cons_self
    have hW : Writes Arg L e.name arg (asI64 e.nextOffset) := ⟨e, he.1, he.2, harg, rfl, rfl⟩
    obtain ⟨m, rfl⟩ : ∃ m', m = m' + 1 := ⟨m - 1, by rw [List.length_cons] at hm; omega⟩
    have hread := hfmt.read_write _ _ _ hW bytes
    have hrest := ih (fun e' he' => hsub e' (List.mem_cons_of_mem e he')) (m := m)
      (by rw [List.length_cons] at hm; omega)
    have hne : fmt.write e.name arg (asI64 e.nextOffset) ++ bytes ≠ [] := by
      intro hnil
      have hlength := hfmt.length_write _ _ _ hW
      have hpos := hfmt.size_pos _ _ _ hW
      rw [(List.append_eq_nil_iff.mp hnil).1, List.length_nil] at hlength
      omega
    obtain ⟨b, bs, hbs⟩ := List.exists_cons_of_ne_nil hne
    obtain ⟨hino, htype⟩ := hArg e arg harg
    rw [hbs] at hread ⊢
    rw [Format.readUpTo, hread]
    simp only [hrest, Option.map_some, List.map_cons, Item.record, Item.dirent, hino, htype]

/-- The kernel reads a whole reply back. -/
lemma decode_record (hArg : ∀ e arg, Arg e arg → (stat arg).ino = e.id ∧
      typeOf (stat arg).mode = typeOf (kindToModeBits (kind e.data)))
    (h : fmt.Wrote Arg bytes es) : fmt.decode bytes = some (es.map (Item.record kind)) :=
  h.readUpTo hfmt hsub hArg (h.length_le hfmt hsub)

/-- The kernel reads a whole reply back, with the cookies, if they fit. -/
lemma decode (hcookie : ∀ e ∈ L, e.nextOffset < 2 ^ 63)
    (hArg : ∀ e arg, Arg e arg → (stat arg).ino = e.id ∧
      typeOf (stat arg).mode = typeOf (kindToModeBits (kind e.data)))
    (h : fmt.Wrote Arg bytes es) : fmt.decode bytes = some (es.map (Item.dirent kind)) := by
  rw [h.decode_record hfmt hsub hArg, Option.some_inj]
  apply List.map_congr_left
  intro e he
  unfold Item.record
  rw [asI64_of_lt (hcookie e (hsub e he).1)]
  rfl

end Format.Wrote

/-! ## Filling a buffer -/

/-- What is written of a list of entries into a buffer with `room` bytes left. -/
def Format.page (fmt : Format A) (room : ℕ) (es : List (Item D)) : List (Item D) :=
  Paging.fill (fun e => fmt.size e.name) Item.writable room es

/-- A buffer on its way to hold a page of `todo`, with the entries `rest` still to be offered while
nothing was refused. -/
structure DirBuffer.Filling (fmt : Format A) (Arg : Item D → A → Prop) (size : ℕ)
    (todo : List (Item D)) (b : DirBuffer) (rest : List (Item D)) (accepting : Bool) : Prop where
  capacity : b.capacity = size
  written : ∃ es, fmt.Wrote Arg b.buf es ∧
    (if accepting then es ++ fmt.page (size - b.buf.length) rest else es) = fmt.page size todo

namespace DirBuffer.Filling

variable {fmt : Format A} {Arg : Item D → A → Prop} {stat : A → Stat} {size : ℕ}
  {L todo rest : List (Item D)} {b : DirBuffer}

lemma start : Filling fmt Arg size todo (DirBuffer.new size) todo true :=
  ⟨rfl, [], .nil, rfl⟩

/-- Skipping an entry. -/
lemma skip {e : Item D} (hnul : 0 ∈ e.name) (h : Filling fmt Arg size todo b (e :: rest) true) :
    Filling fmt Arg size todo b rest true := by
  obtain ⟨hcap, es, hwrote, htarget⟩ := h
  have hw : ¬ e.writable = true := by simpa [Item.writable] using hnul
  rw [if_pos rfl, Format.page, Paging.fill, if_neg hw] at htarget
  exact ⟨hcap, es, hwrote, by rw [if_pos rfl]; exact htarget⟩

/-- Offering an entry. -/
lemma put (hfmt : fmt.Lawful stat (Writes Arg L)) {e : Item D} (he : e ∈ L) {arg : A}
    (harg : Arg e arg) (h : Filling fmt Arg size todo b (e :: rest) true) :
    Filling fmt Arg size todo (b.put fmt e.name arg e.nextOffset).2 rest
      (b.put fmt e.name arg e.nextOffset).1 := by
  unfold DirBuffer.put
  by_cases hnul : 0 ∈ e.name
  · rw [if_pos hnul]
    exact h.skip hnul
  · obtain ⟨hcap, es, hwrote, htarget⟩ := h
    rw [if_pos rfl, Format.page, Paging.fill] at htarget
    have hw : e.writable = true := by simpa [Item.writable] using hnul
    rw [if_neg hnul]
    rw [if_pos hw] at htarget
    have hW : Writes Arg L e.name arg (asI64 e.nextOffset) := ⟨e, he, hw, harg, rfl, rfl⟩
    have hpos := hfmt.size_pos _ _ _ hW
    have hlength := hfmt.length_write _ _ _ hW
    by_cases hfit : b.buf.length + fmt.size e.name > b.capacity
    · rw [if_pos hfit]
      rw [if_neg (by omega), List.append_nil] at htarget
      exact ⟨hcap, es, hwrote, htarget⟩
    · rw [if_neg hfit]
      rw [if_pos (by omega)] at htarget
      refine ⟨hcap, es ++ [e], hwrote.snoc harg, ?_⟩
      rw [if_pos rfl, List.append_assoc, List.singleton_append, List.length_append, hlength,
        ← Nat.sub_sub]
      exact htarget

/-- A buffer that refused an entry, or was offered all, holds a page. -/
lemma done {accepting : Bool} (h : Filling fmt Arg size todo b rest accepting)
    (hrest : accepting = true → rest = []) : fmt.Wrote Arg b.buf (fmt.page size todo) := by
  obtain ⟨_, es, hwrote, htarget⟩ := h
  cases accepting with
  | false => exact htarget ▸ hwrote
  | true =>
    rw [hrest rfl, if_pos rfl, Format.page, Paging.fill, List.append_nil] at htarget
    exact htarget ▸ hwrote

end DirBuffer.Filling

end TypedFuse
