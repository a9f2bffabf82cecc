import TypedFuse.Session.Listing

/-!
# The pages of a directory

The kernel lists a directory by calls of `readdir_shim` or `readdirplus_shim`, the first one at
offset `0` and each other one at the cookie of the last record it has read.  `Complete` says of such
a sequence of calls that it is finite, that no reply is longer than was asked for, and that the
replies up to the first empty one are the directory.
-/

namespace TypedFuse

open Conc Conc.Service NodeTable TypedFuse.Runtime Errno

variable {fs : NodeFs}

/-! ## The shims -/

/-- The reply of a listing: an error, or a buffer, which `reply_dir_buf` sends as it is. -/
inductive DirReply where
  | err (e : Errno)
  | buf (data : List UInt8)
  deriving DecidableEq

/-- What `readdir_shim` asks of the runtime. -/
def readdirRequest (fmt : Format Stat) (ino size fh : ℕ) (caller : Caller) (off : ℕ) :
    Request :=
  .readdir ino fh off ((DirBuffer.new size).sink (DirBuffer.add fmt)) caller

/-- What `readdir_shim` replies to the outcome. -/
def readdirReply (fmt : Format Stat) (size : ℕ) (a : Fallible Reply) : DirReply :=
  match catchUnwind a with
  | .ok (.listed offered) => .buf ((DirBuffer.new size).after (DirBuffer.add fmt) offered).buf
  -- `Runtime::readdir` has no other successful outcome
  | .ok _ => .buf []
  | .error e => .err e

/-- `readdir_shim`, served alone. -/
def readdirShim (fmt : Format Stat) (ino size fh : ℕ) (caller : Caller) (c : Config (service fs))
    (off : ℤ) (reply : DirReply) (c' : Config (service fs)) : Prop :=
  if off < 0 then reply = .err EINVAL ∧ c' = c
  else ∃ a, Serves c (readdirRequest fmt ino size fh caller off.toNat) a c' ∧
    reply = readdirReply fmt size a

/-- What `readdirplus_shim` asks of the runtime. -/
def readdirplusRequest (fmt : Format EntryParam) (ttl : Duration) (ino size fh : ℕ)
    (caller : Caller) (off : ℕ) : Request :=
  .readdirplus ino fh off ((DirBuffer.new size).sink (DirBuffer.takePlus fmt ttl)) caller

/-- What `readdirplus_shim` replies to the outcome. -/
def readdirplusReply (fmt : Format EntryParam) (ttl : Duration) (size : ℕ) (a : Fallible Reply) :
    DirReply :=
  match catchUnwind a with
  | .ok (.retained _ offered) =>
    .buf ((DirBuffer.new size).after (DirBuffer.takePlus fmt ttl) offered).buf
  -- `Runtime::readdirplus` has no other successful outcome
  | .ok _ => .buf []
  | .error e => .err e

/-- The lookups that `readdirplus_shim` forgets when its reply is not delivered. -/
def retainedBy : Fallible Reply → List NodeId
  | .ok (.retained ids _) => ids
  | _ => []

/-- The loop that forgets one lookup of each of a list of nodes. -/
inductive Forgets : Config (service fs) → List NodeId → Config (service fs) → Prop where
  | nil (c : Config (service fs)) : Forgets c [] c
  | cons {c c₁ c' : Config (service fs)} {id : NodeId} {ids : List NodeId} :
      Serves c (.forget id 1) (.ok .unit) c₁ → Forgets c₁ ids c' → Forgets c (id :: ids) c'

/-- `readdirplus_shim`, served alone.  `received` says whether the kernel received the reply; if it
did not, the retained lookups are forgotten. -/
def readdirplusShim (fmt : Format EntryParam) (ttl : Duration) (received : Bool) (ino size fh : ℕ)
    (caller : Caller) (c : Config (service fs)) (off : ℤ) (reply : DirReply)
    (c' : Config (service fs)) : Prop :=
  if off < 0 then reply = .err EINVAL ∧ c' = c
  else ∃ a c₁, Serves c (readdirplusRequest fmt ttl ino size fh caller off.toNat) a c₁ ∧
    reply = readdirplusReply fmt ttl size a ∧
    if received then c' = c₁ else Forgets c₁ (retainedBy a) c'

/-! ## Sequences of calls -/

/-- The kernel has read the pages `pages`, none of them empty, and asks at `off` next. -/
inductive Paged {C : Type} (call : C → ℤ → DirReply → C → Prop)
    (decode : List UInt8 → Option (List Dirent)) (c₀ : C) :
    List (List UInt8) → ℤ → C → Prop where
  | start : Paged call decode c₀ [] 0 c₀
  | page {pages : List (List UInt8)} {off : ℤ} {c c' : C} {data : List UInt8} {ds : List Dirent}
      {d : Dirent} :
      Paged call decode c₀ pages off c → call c off (.buf data) c' → decode data = some ds →
      ds.getLast? = some d → Paged call decode c₀ (pages ++ [data]) d.off c'

/-- Listing by repeated calls ends with the directory. -/
structure Complete {C : Type} (call : C → ℤ → DirReply → C → Prop)
    (decode : List UInt8 → Option (List Dirent)) (size : ℕ) (directory : List Dirent)
    (Ends : C → ℤ → Prop) (Room : C → Prop) (c₀ : C) : Prop where
  /-- There are finitely many calls before the first empty reply. -/
  finite : ∀ pages off c, Paged call decode c₀ pages off c → pages.length ≤ directory.length
  /-- The next reply is not longer than was asked for; either it is empty and the replies so far
  are the directory, or it can be read and the listing goes on behind its last record. -/
  replies : ∀ pages off c, Paged call decode c₀ pages off c →
    ∀ reply c', call c off reply c' →
    ∃ data, reply = .buf data ∧ data.length ≤ size ∧
      ((data = [] ∧ decode pages.flatten = some directory) ∨
        ∃ ds d, decode data = some ds ∧ ds.getLast? = some d)
  /-- Every call returns, however it is run, unless a counter is at its limit. -/
  returns : ∀ pages off c, Paged call decode c₀ pages off c → Room c →
    Ends c off ∧ ∃ reply c', call c off reply c'

section Pages

variable {A C D : Type} {call : C → ℤ → DirReply → C → Prop} {fmt : Format A}
  {Arg : Item D → A → Prop} {stat : A → Stat} {kind : D → FileKind} {L : List (Item D)}
  {size : ℕ} {J Room : C → Prop} {Ends : C → ℤ → Prop} {c₀ : C}

/-- A page consists of entries of the list that can be written. -/
lemma Format.mem_page {room off : ℕ} {e : Item D}
    (he : e ∈ fmt.page room (Paging.behind Item.nextOffset off L)) : e ∈ L ∧ e.writable := by
  obtain ⟨hmem, hw⟩ := List.mem_filter.mp ((Paging.fill_isPrefix room _).mem he)
  exact ⟨Paging.mem_of_mem_behind hmem, hw⟩

variable (hfmt : fmt.Lawful stat (Writes Arg L))
  (hsorted : L.Pairwise fun a b => a.nextOffset < b.nextOffset)
  (hrange : ∀ e ∈ L, 1 ≤ e.nextOffset ∧ e.nextOffset < 2 ^ 63)
  (hArg : ∀ e arg, Arg e arg → (stat arg).ino = e.id ∧
    typeOf (stat arg).mode = typeOf (kindToModeBits (kind e.data)))
  (hJ : J c₀)
  (hcall : ∀ pages (off : ℕ) c, Paged call fmt.decode c₀ pages off c → J c →
    ∀ data c', call c off (.buf data) c' →
      fmt.Wrote Arg data (fmt.page size (Paging.behind Item.nextOffset off L)) ∧ J c')

include hfmt hsorted hrange hArg hJ hcall

/-- What was read is the beginning of the list, and the rest is behind the offset. -/
lemma Paged.continues {pages : List (List UInt8)} {off : ℤ} {c : C}
    (h : Paged call fmt.decode c₀ pages off c) :
    J c ∧ ∃ (k : ℕ) (done : List (Item D)), off = k ∧
      Paging.Continues Item.nextOffset Item.writable L k done ∧
      fmt.Wrote Arg pages.flatten done ∧ pages.length ≤ done.length := by
  induction h with
  | start =>
    exact ⟨hJ, 0, [], rfl, Paging.continues_start fun e he => (hrange e he).1, .nil, le_rfl⟩
  | @page pages off c c' data ds d hpaged hpage hdecode hlast ih =>
    obtain ⟨hc, k, done, rfl, hcont, hwrote, hlength⟩ := ih
    obtain ⟨hdata, hc'⟩ := hcall pages k c hpaged hc data c' hpage
    have hread := hdata.decode hfmt (fun e he => Format.mem_page he)
      (fun e he => (hrange e he).2) hArg
    obtain rfl := Option.some.inj (hdecode.symm.trans hread)
    obtain ⟨e, he, rfl⟩ : ∃ e, (fmt.page size (Paging.behind Item.nextOffset k L)).getLast? =
      some e ∧
        e.dirent kind = d := by
      rw [List.getLast?_map] at hlast
      exact Option.map_eq_some_iff.mp hlast
    obtain ⟨init, hinit⟩ := List.getLast?_eq_some_iff.mp he
    have hprefix : init ++ [e] <+: (Paging.behind Item.nextOffset k L).filter Item.writable := by
      rw [← hinit]
      exact Paging.fill_isPrefix size _
    refine ⟨hc', e.nextOffset, done ++ (init ++ [e]), rfl, hcont.next hsorted hprefix, ?_, ?_⟩
    · rw [List.flatten_append, List.flatten_singleton, ← hinit]
      exact hwrote.append hdata
    · simp only [List.length_append, List.length_singleton]
      omega

/-- A listing whose calls answer with the pages of a list is complete. -/
lemma complete_of_pages (hsize : ∀ e ∈ L, e.writable → fmt.size e.name ≤ size)
    (hbuf : ∀ pages (off : ℕ) c, Paged call fmt.decode c₀ pages off c → J c →
      ∀ reply c', call c off reply c' → ∃ data, reply = .buf data)
    (hreturns : ∀ pages (off : ℕ) c, Paged call fmt.decode c₀ pages off c → J c →
      Room c →
      Ends c off ∧ ∃ reply c', call c off reply c') :
    Complete call fmt.decode size ((L.filter Item.writable).map (Item.dirent kind)) Ends Room
      c₀ := by
  have hinv := fun pages off c (h : Paged call fmt.decode c₀ pages off c) =>
    h.continues hfmt hsorted hrange hArg hJ hcall
  refine ⟨?_, ?_, ?_⟩
  · intro pages off c h
    obtain ⟨_, k, done, _, hcont, _, hlength⟩ := hinv pages off c h
    rw [List.length_map]
    exact hlength.trans hcont.length_le
  · intro pages off c h reply c' hreply
    obtain ⟨hc, k, done, rfl, hcont, hwrote, _⟩ := hinv pages off c h
    obtain ⟨data, rfl⟩ := hbuf pages k c h hc reply c' hreply
    have hdata := (hcall pages k c h hc data c' hreply).1
    have hmem : ∀ e ∈ fmt.page size (Paging.behind Item.nextOffset k L), e ∈ L ∧
        e.writable :=
      fun e he => Format.mem_page he
    refine ⟨data, rfl, ?_, ?_⟩
    · rw [hdata.length hfmt hmem]
      exact Paging.sum_fill_le size _
    · rcases List.eq_nil_or_concat (fmt.page size (Paging.behind Item.nextOffset k L)) with
        hnil | ⟨init, e, hlast⟩
      · rw [hnil] at hdata
        have hdone := hcont.done_eq (Paging.filter_eq_nil_of_fill
          (fun e he hw => hsize e (Paging.mem_of_mem_behind he) hw) hnil)
        refine Or.inl ⟨?_, ?_⟩
        · cases hdata
          rfl
        · rw [← hdone]
          refine hwrote.decode hfmt ?_ (fun e he => (hrange e he).2) hArg
          intro e he
          rw [hdone] at he
          exact List.mem_filter.mp he
      · have hread := hdata.decode hfmt hmem (fun e he => (hrange e he).2) hArg
        refine Or.inr ⟨_, e.dirent kind, hread, ?_⟩
        rw [hlast, List.concat_eq_append, List.map_append, List.map_singleton,
          List.getLast?_concat]
  · intro pages off c h hroom
    obtain ⟨hc, k, done, rfl, _⟩ := hinv pages off c h
    exact hreturns pages k c h hc hroom

/-- In a complete listing whose calls all return, every entry that can be written has been. -/
lemma args_of_complete (hcomplete : Complete call fmt.decode size
      ((L.filter Item.writable).map (Item.dirent kind)) Ends Room c₀)
    (hroom : ∀ pages off c, Paged call fmt.decode c₀ pages off c → Room c) :
    ∀ e ∈ L, e.writable → ∃ arg, Arg e arg := by
  -- the listing goes on until an empty reply
  have hlong : ∀ m, (∃ pages off c, Paged call fmt.decode c₀ pages off c ∧
      pages.length = m) ∨
      ∃ pages off c, Paged call fmt.decode c₀ pages off c ∧
        fmt.decode pages.flatten = some ((L.filter Item.writable).map (Item.dirent kind)) := by
    intro m
    induction m with
    | zero => exact Or.inl ⟨[], 0, c₀, .start, rfl⟩
    | succ m ih =>
      rcases ih with ⟨pages, off, c, hpaged, rfl⟩ | hend
      · obtain ⟨_, reply, c', hreply⟩ := hcomplete.returns pages off c hpaged
          (hroom _ _ _ hpaged)
        obtain ⟨data, rfl, _, hdata⟩ := hcomplete.replies pages off c hpaged reply c' hreply
        rcases hdata with ⟨_, hdone⟩ | ⟨ds, d, hread, hlast⟩
        · exact Or.inr ⟨pages, off, c, hpaged, hdone⟩
        · exact Or.inl ⟨_, _, c', hpaged.page hreply hread hlast, List.length_append⟩
      · exact Or.inr hend
  have hend : ∃ pages off c, Paged call fmt.decode c₀ pages off c ∧
      fmt.decode pages.flatten = some ((L.filter Item.writable).map (Item.dirent kind)) := by
    refine (hlong (((L.filter Item.writable).map (Item.dirent kind)).length + 1)).resolve_left ?_
    rintro ⟨pages, off, c, hpaged, hlength⟩
    have hle := hcomplete.finite pages off c hpaged
    omega
  obtain ⟨pages, off, c, hpaged, hdecode⟩ := hend
  obtain ⟨_, k, done, _, hcont, hwrote, _⟩ := hpaged.continues hfmt hsorted hrange hArg hJ hcall
  have hmem : ∀ e ∈ done, e ∈ L ∧ e.writable := by
    intro e he
    refine List.mem_filter.mp ?_
    unfold Paging.Continues at hcont
    rw [← hcont]
    exact List.mem_append_left _ he
  -- what was read is the whole list
  have hread := hwrote.decode hfmt hmem (fun e he => (hrange e he).2) hArg
  have hdone : done.length = (L.filter Item.writable).length := by
    have hlength := congrArg List.length (Option.some.inj (hread.symm.trans hdecode))
    rwa [List.length_map, List.length_map] at hlength
  have hall : done = L.filter Item.writable :=
    (hcont ▸ List.prefix_append done _ : done <+: L.filter Item.writable).eq_of_length hdone
  intro e he hw
  refine hwrote.arg ?_
  rw [hall]
  exact List.mem_filter.mpr ⟨he, hw⟩

end Pages

/-! ## Listings of the runtime -/

/-- A directory callback follows its contract in the calls `Called`: the directory has the entries
`L`, with cookies that increase from `1` to at most `2 ^ 63 - 1`, and a call at an offset pushes the
entries behind it in order and stops at the first one that is refused. -/
structure DirContract {D : Type}
    (callback : fs.Node → NodeId → NodeId → fs.Payload .dir → ℕ → Caller →
      DirProg fs.toFsSig D (Fallible Unit))
    (Ready : Item D → RtState fs.toFsSig → Prop)
    (Took : ℕ → Item D → RtState fs.toFsSig → RtState fs.toFsSig → Prop)
    (Called : Config (service fs) → ℤ → Prop) (ino fh : ℕ) (caller : Caller)
    (L : List (Item D)) : Prop where
  increasing : L.Pairwise fun a b => a.nextOffset < b.nextOffset
  cookies : ∀ e ∈ L, 1 ≤ e.nextOffset ∧ e.nextOffset < 2 ^ 63
  emits : ∀ c off, Called c off → ∀ node parent payload s,
    Enters fs c.threads.length c.state ino fh node parent payload s →
    Emits c.threads.length Ready (Took c.threads.length)
      (Paging.behind Item.nextOffset off.toNat L)
      (callback node.record.payload ino parent payload off.toNat caller) s

/-- The configuration is reachable and `fh` is registered for the directory. -/
def Listable (ino fh : ℕ) (c : Config (service fs)) : Prop :=
  Run anyAction (start fs) c ∧ (c.state.handles.table .dir).lookup fh = some ⟨fh, ino⟩

lemma Listable.openDir {ino fh : ℕ} {c : Config (service fs)} (h : Listable ino fh c) :
    OpenDir c.state ino fh :=
  openDir_of_run h.1 h.2 rfl

lemma Listable.wf {ino fh : ℕ} {c : Config (service fs)} (h : Listable ino fh c) :
    c.state.table.WF := by
  obtain ⟨T, hinv⟩ := (holds_any h.1).inv
  exact hinv.wf

/-- Serving a request that leaves the registered handles alone. -/
lemma Listable.serves {ino fh : ℕ} {c c' : Config (service fs)} (h : Listable ino fh c)
    {req : Request} {a : Fallible Reply} (hserves : Serves c req a c')
    (htable : c'.state.handles.table = c.state.handles.table) : Listable ino fh c' := by
  refine ⟨h.1.trans (hserves.run trivial (fun _ _ _ => trivial) fun _ _ => trivial), ?_⟩
  rw [htable]
  exact h.2

/-- What a listing request that is served alone ends with. -/
lemma served_of_yields {c c' : Config (service fs)} {req : Request} {a : Fallible Reply}
    (hissue : Runtime.issue c.threads.length req c.state = c.state) {must : Prop}
    {Q : Fallible Reply → RtState fs.toFsSig → Prop}
    (hyields : (service fs).Yields must c.threads.length c.state (serve fs req) Q)
    (hserves : Serves c req a c') :
    ∃ s', Q a s' ∧ c'.state.handles = s'.handles := by
  obtain ⟨s, s', hs, halone, rfl⟩ := hserves
  obtain rfl : c.state = s := hissue.symm.trans (Option.some.inj hs)
  exact ⟨s', alone_iff_wp.mp hyields.ensures a s' halone, rfl⟩

section Calls

variable {c : Config (service fs)} {ino fh : ℕ} {caller : Caller} (must : Prop) (size : ℕ)

/-- A call of `readdir_shim` behind a cookie. -/
lemma yields_readdirRequest {fmt : Format Stat} {L : List (Item FileKind)}
    (hfmt : fmt.Lawful id (Writes plainArg L)) {Called : Config (service fs) → ℤ → Prop}
    (hcontract : DirContract fs.readdir (fun _ _ => True) (fun _ _ s s' => s' = s) Called ino fh
      caller L) {off : ℕ} (hcalled : Called c off) (hc : Listable ino fh c)
    (hroom : must → Room c.state ino fh) :
    (service fs).Yields must c.threads.length c.state
      (serve fs (readdirRequest fmt ino size fh caller off)) fun a s' =>
        (∃ data, readdirReply fmt size a = .buf data ∧
          fmt.Wrote plainArg data (fmt.page size (Paging.behind Item.nextOffset off L))) ∧
        s'.handles.table = c.state.handles.table := by
  have hemits := hcontract.emits c off hcalled
  rw [Int.toNat_natCast] at hemits
  refine Yields.bind (yields_readdir hfmt (fun e he => Paging.mem_of_mem_behind he) hc.openDir hroom
    hemits) ?_
  rintro r s' ⟨⟨offered, rfl, hwrote⟩, htable⟩
  exact Yields.ret ⟨⟨_, rfl, hwrote⟩, htable⟩

/-- A call of `readdirplus_shim` behind a cookie: it answers with a page, unless the sink panics at
an entry. -/
lemma yields_readdirplusRequest {c : Config (service fs.mounted)} {fmt : Format EntryParam}
    {ttl : Duration} {L : List (Item NodeAttr)}
    (hfmt : fmt.Lawful EntryParam.attr (Writes (plusArg ttl) L))
    {Called : Config (service fs.mounted) → ℤ → Prop}
    (hcontract : @DirContract fs.mounted NodeAttr fs.readdirplus LiveItem Retains Called ino fh
      caller L) {off : ℕ} (hcalled : Called c off) (hc : Listable ino fh c)
    (hroom : must → Room c.state ino fh ∧ LookupRoom L c.state L.length) :
    (service fs.mounted).Yields must c.threads.length c.state
      (serve fs.mounted (readdirplusRequest fmt ttl ino size fh caller off)) fun a s' =>
        ((∃ data, readdirplusReply fmt ttl size a = .buf data ∧
          fmt.Wrote (plusArg ttl) data (fmt.page size (Paging.behind Item.nextOffset off L))) ∨
          (readdirplusReply fmt ttl size a = .err EIO ∧ ∃ e ∈ L, ¬ e.Convertible)) ∧
        s'.handles.table = c.state.handles.table := by
  have hemits := hcontract.emits c off hcalled
  rw [Int.toNat_natCast] at hemits
  have hlookups : must →
      LookupRoom L c.state (Paging.behind Item.nextOffset off L).length := by
    intro hm e he
    have hlength : (Paging.behind Item.nextOffset off L).length ≤ L.length :=
      List.length_filter_le _ L
    have hlimit := (hroom hm).2 e he
    omega
  refine Yields.bind (yields_readdirplus hfmt (fun e he => Paging.mem_of_mem_behind he) hc.wf
    hc.openDir (fun hm => (hroom hm).1) hlookups ?_) ?_
  · intro node parent payload s₁ henters
    exact emitsTo_unwinding _ (fun _ he => he) (hemits node parent payload s₁ henters)
  · rintro r s' ⟨⟨ids, offered, rfl, hwrote⟩ | ⟨rfl, e, he, hbad⟩, htable⟩
    · exact Yields.ret ⟨Or.inl ⟨_, rfl, hwrote⟩, htable⟩
    · exact Yields.ret ⟨Or.inr ⟨rfl, e, Paging.mem_of_mem_behind he, hbad⟩, htable⟩

end Calls

/-- The argument of `fuse_add_direntry` says the inode and the type. -/
lemma plainArg_stat (e : Item FileKind) (arg : Stat) (h : plainArg e arg) :
    (id arg).ino = e.id ∧ typeOf (id arg).mode = typeOf (kindToModeBits (id e.data)) := by
  obtain rfl := h
  exact ⟨rfl, rfl⟩

/-- The argument of `fuse_add_direntry_plus` says the inode and the type. -/
lemma plusArg_stat {ttl : Duration} (e : Item NodeAttr) (arg : EntryParam) (h : plusArg ttl e arg) :
    arg.attr.ino = e.id ∧ typeOf arg.attr.mode = typeOf (kindToModeBits e.data.kind) := by
  obtain ⟨generation, hparam⟩ := h
  obtain ⟨hino, hmode⟩ := attr_entryToEntryParam hparam
  exact ⟨hino, by rw [hmode, typeOf_or]⟩

/-- An entry has an argument of `fuse_add_direntry_plus` only if its times can be converted. -/
lemma convertible_of_plusArg {ttl : Duration} {e : Item NodeAttr} {arg : EntryParam}
    (h : plusArg ttl e arg) : e.data.Convertible := by
  obtain ⟨generation, hparam⟩ := h
  refine (isSome_entryToEntryParam e.id generation e.data ttl).mp ?_
  rw [hparam]
  rfl

/-- Where a listing by `readdir_shim` gets. -/
def ReaddirCalled (fmt : Format Stat) (ino size fh : ℕ) (caller : Caller)
    (c₀ c : Config (service fs)) (off : ℤ) : Prop :=
  ∃ pages, Paged (readdirShim fmt ino size fh caller) fmt.decode c₀ pages off c

/-- Where a listing by `readdirplus_shim` gets, whose replies are received. -/
def ReaddirplusCalled (fmt : Format EntryParam) (ttl : Duration) (ino size fh : ℕ)
    (caller : Caller) (c₀ c : Config (service fs)) (off : ℤ) : Prop :=
  ∃ pages, Paged (readdirplusShim fmt ttl true ino size fh caller) fmt.decode c₀ pages off c

/-- The counters that a listing of the entries `L` by `readdirplus_shim` adds to are not at their
limits. -/
def PlusRoom (ino fh : ℕ) (L : List (Item NodeAttr)) (c : Config (service fs)) : Prop :=
  Room c.state ino fh ∧ LookupRoom L c.state L.length

/-- Listing by `readdir_shim` ends with the entries `L`. -/
def ReaddirComplete (fmt : Format Stat) (ino size fh : ℕ) (caller : Caller)
    (L : List (Item FileKind)) (c₀ : Config (service fs)) : Prop :=
  Complete (readdirShim fmt ino size fh caller) fmt.decode size
    ((L.filter Item.writable).map (Item.dirent id))
    (fun c off => c.Returns (readdirRequest fmt ino size fh caller off.toNat))
    (fun c => Room c.state ino fh) c₀

/-- Listing by `readdirplus_shim` ends with the entries `L`. -/
def ReaddirplusComplete (fmt : Format EntryParam) (ttl : Duration) (ino size fh : ℕ)
    (caller : Caller) (L : List (Item NodeAttr)) (c₀ : Config (service fs)) : Prop :=
  Complete (readdirplusShim fmt ttl true ino size fh caller) fmt.decode size
    ((L.filter Item.writable).map (Item.dirent NodeAttr.kind))
    (fun c off => c.Returns (readdirplusRequest fmt ttl ino size fh caller off.toNat))
    (PlusRoom ino fh L) c₀

section Listings

variable {ino fh : ℕ} {caller : Caller} {size : ℕ}

/-- Listing by `readdir_shim` is complete. -/
lemma readdirComplete_of_contract {c₀ : Config (service fs)} (hstart : Listable ino fh c₀)
    {fmt : Format Stat} {L : List (Item FileKind)} (hfmt : fmt.Lawful id (Writes plainArg L))
    (hsize : ∀ e ∈ L, e.writable → fmt.size e.name ≤ size)
    (hcontract : DirContract fs.readdir (fun _ _ => True) (fun _ _ s s' => s' = s)
      (ReaddirCalled fmt ino size fh caller c₀) ino fh caller L) :
    ReaddirComplete fmt ino size fh caller L c₀ := by
  have hpage : ∀ pages (off : ℕ) c,
      Paged (readdirShim fmt ino size fh caller) fmt.decode c₀ pages off c →
      Listable ino fh c →
      ∀ reply c', readdirShim fmt ino size fh caller c off reply c' →
        (∃ data, reply = .buf data ∧
        fmt.Wrote plainArg data (fmt.page size (Paging.behind Item.nextOffset off L))) ∧
        Listable ino fh c' := by
    intro pages off c hpaged hc reply c' hshim
    unfold readdirShim at hshim
    rw [if_neg (by omega), Int.toNat_natCast] at hshim
    obtain ⟨a, hserves, rfl⟩ := hshim
    have hyields := yields_readdirRequest False size hfmt hcontract ⟨pages, hpaged⟩ hc
      False.elim
    obtain ⟨s', ⟨hreply, htable⟩, hstate⟩ := served_of_yields rfl hyields hserves
    exact ⟨hreply, hc.serves hserves (by rw [hstate, htable])⟩
  refine complete_of_pages hfmt hcontract.increasing hcontract.cookies plainArg_stat hstart ?_
    hsize ?_ ?_
  · intro pages off c hpaged hc data c' hshim
    obtain ⟨⟨data', heq, hwrote⟩, hc'⟩ := hpage pages off c hpaged hc _ c' hshim
    obtain rfl := DirReply.buf.inj heq
    exact ⟨hwrote, hc'⟩
  · intro pages off c hpaged hc reply c' hshim
    obtain ⟨⟨data, heq, _⟩, _⟩ := hpage pages off c hpaged hc _ c' hshim
    exact ⟨data, heq⟩
  · intro pages off c hpaged hc hroom
    have hyields := yields_readdirRequest True size hfmt hcontract ⟨pages, hpaged⟩ hc
      fun _ => hroom
    have hreturns : c.Returns (readdirRequest fmt ino size fh caller off) :=
      ⟨c.state, rfl, hyields.mono fun _ _ _ => trivial⟩
    obtain ⟨a, c', hserves⟩ := hreturns.serves
    refine ⟨hreturns, readdirReply fmt size a, c', ?_⟩
    unfold readdirShim
    rw [if_neg (by omega), Int.toNat_natCast]
    exact ⟨a, hserves, rfl⟩

variable {c₀ : Config (service fs.mounted)} {fmt : Format EntryParam} {ttl : Duration}
  {L : List (Item NodeAttr)} (hstart : Listable ino fh c₀)
  (hfmt : fmt.Lawful EntryParam.attr (Writes (plusArg ttl) L))
  (hcontract : @DirContract fs.mounted NodeAttr fs.readdirplus LiveItem Retains
    (ReaddirplusCalled fmt ttl ino size fh caller c₀) ino fh caller L)

include hfmt hcontract

/-- A call of `readdirplus_shim` answers with a page, unless the sink panics. -/
lemma readdirplusShim_page {pages : List (List UInt8)} {off : ℕ}
    {c c' : Config (service fs.mounted)}
    (hpaged : Paged (readdirplusShim fmt ttl true ino size fh caller) fmt.decode c₀ pages off c)
    (hc : Listable ino fh c) {reply : DirReply}
    (hshim : readdirplusShim fmt ttl true ino size fh caller c off reply c') :
    ((∃ data, reply = .buf data ∧
      fmt.Wrote (plusArg ttl) data (fmt.page size (Paging.behind Item.nextOffset off L))) ∨
      (reply = .err EIO ∧ ∃ e ∈ L, ¬ e.Convertible)) ∧ Listable ino fh c' := by
  unfold readdirplusShim at hshim
  rw [if_neg (by omega), Int.toNat_natCast] at hshim
  obtain ⟨a, c₁, hserves, rfl, rfl⟩ := hshim
  have hyields := yields_readdirplusRequest False size hfmt hcontract ⟨pages, hpaged⟩ hc
    False.elim
  obtain ⟨s', ⟨hreply, htable⟩, hstate⟩ := served_of_yields rfl hyields hserves
  exact ⟨hreply, hc.serves hserves (by rw [hstate, htable])⟩

include hstart

/-- Listing by `readdirplus_shim` is complete if all times can be converted. -/
lemma readdirplusComplete_of_convertible
    (hsize : ∀ e ∈ L, e.writable → fmt.size e.name ≤ size)
    (hL : ∀ e ∈ L, e.Convertible) :
    ReaddirplusComplete fmt ttl ino size fh caller L c₀ := by
  refine complete_of_pages hfmt hcontract.increasing hcontract.cookies plusArg_stat hstart ?_
    hsize ?_ ?_
  · intro pages off c hpaged hc data c' hshim
    obtain ⟨⟨data', heq, hwrote⟩ | ⟨heq, _⟩, hc'⟩ :=
      readdirplusShim_page hfmt hcontract hpaged hc hshim
    · obtain rfl := DirReply.buf.inj heq
      exact ⟨hwrote, hc'⟩
    · cases heq
  · intro pages off c hpaged hc reply c' hshim
    obtain ⟨⟨data, heq, _⟩ | ⟨_, e, he, hbad⟩, _⟩ :=
      readdirplusShim_page hfmt hcontract hpaged hc hshim
    · exact ⟨data, heq⟩
    · exact absurd (hL e he) hbad
  · intro pages off c hpaged hc hroom
    have hyields := yields_readdirplusRequest True size hfmt hcontract ⟨pages, hpaged⟩ hc
      fun _ => hroom
    have hreturns : c.Returns (readdirplusRequest fmt ttl ino size fh caller off) :=
      ⟨c.state, rfl, hyields.mono fun _ _ _ => trivial⟩
    obtain ⟨a, c', hserves⟩ := hreturns.serves
    refine ⟨hreturns, readdirplusReply fmt ttl size a, c', ?_⟩
    unfold readdirplusShim
    rw [if_neg (by omega), Int.toNat_natCast]
    exact ⟨a, c', hserves, rfl, rfl⟩

/-- If listing by `readdirplus_shim` is complete, all times can be converted. -/
lemma convertible_of_readdirplusComplete
    (hroom : ∀ c off, ReaddirplusCalled fmt ttl ino size fh caller c₀ c off →
      PlusRoom ino fh L c)
    (hcomplete : ReaddirplusComplete fmt ttl ino size fh caller L c₀) :
    ∀ e ∈ L, e.Convertible := by
  have hargs : ∀ e ∈ L, e.writable → ∃ arg, plusArg ttl e arg := by
    refine args_of_complete hfmt hcontract.increasing hcontract.cookies plusArg_stat hstart ?_
      hcomplete fun pages off c hpaged => hroom c off ⟨pages, hpaged⟩
    intro pages off c hpaged hc data c' hshim
    obtain ⟨⟨data', heq, hwrote⟩ | ⟨heq, _⟩, hc'⟩ :=
      readdirplusShim_page hfmt hcontract hpaged hc hshim
    · obtain rfl := DirReply.buf.inj heq
      exact ⟨hwrote, hc'⟩
    · cases heq
  intro e he hw
  obtain ⟨arg, harg⟩ := hargs e he hw
  exact convertible_of_plusArg harg

end Listings

/-- Listing an open directory page by page, in any reachable configuration and with any filesystem
whose callbacks follow their contract: `readdir` loses and repeats nothing, and `readdirplus`
neither if and only if the times of the entries can be converted. -/
theorem listing_complete_iff {c₀ : Config (service fs.mounted)}
    (hr : Run anyAction (start fs.mounted) c₀) {ino fh : ℕ}
    (hreg : (c₀.state.handles.table .dir).lookup fh = some ⟨fh, ino⟩) (caller : Caller)
    (size : ℕ) :
    (∀ (fmt : Format Stat) (L : List (Item FileKind)), fmt.Lawful id (Writes plainArg L) →
      (∀ e ∈ L, e.writable → fmt.size e.name ≤ size) →
      @DirContract fs.mounted FileKind fs.readdir (fun _ _ => True) (fun _ _ s s' => s' = s)
        (ReaddirCalled fmt ino size fh caller c₀) ino fh caller L →
      ReaddirComplete fmt ino size fh caller L c₀) ∧
    (∀ (fmt : Format EntryParam) (ttl : Duration) (L : List (Item NodeAttr)),
      fmt.Lawful EntryParam.attr (Writes (plusArg ttl) L) →
      (∀ e ∈ L, e.writable → fmt.size e.name ≤ size) →
      @DirContract fs.mounted NodeAttr fs.readdirplus LiveItem Retains
        (ReaddirplusCalled fmt ttl ino size fh caller c₀) ino fh caller L →
      ((∀ e ∈ L, e.Convertible) → ReaddirplusComplete fmt ttl ino size fh caller L c₀) ∧
      ((∀ c off, ReaddirplusCalled fmt ttl ino size fh caller c₀ c off →
        PlusRoom ino fh L c) →
        ReaddirplusComplete fmt ttl ino size fh caller L c₀ → ∀ e ∈ L, e.Convertible)) := by
  have hstart : Listable ino fh c₀ := ⟨hr, hreg⟩
  constructor
  · intro fmt L hfmt hsize hcontract
    exact readdirComplete_of_contract hstart hfmt hsize hcontract
  · intro fmt ttl L hfmt hsize hcontract
    exact ⟨readdirplusComplete_of_convertible hstart hfmt hcontract hsize,
      convertible_of_readdirplusComplete hstart hfmt hcontract⟩

/-! ## The records of the kernel

For runs of the listing, the records that libfuse writes: a `fuse_dirent`, padded to eight bytes,
and for `readdirplus` a `fuse_entry_out` before it. -/

namespace Sample

/-- The bytes of a number, least significant first. -/
def le : ℕ → ℕ → List UInt8
  | 0, _ => []
  | width + 1, v => UInt8.ofNat v :: le width (v / 256)

/-- The number with these bytes. -/
def ofLE : List UInt8 → ℕ
  | [] => 0
  | b :: bytes => b.toNat + 256 * ofLE bytes

@[simp] lemma length_le (width v : ℕ) : (le width v).length = width := by
  induction width generalizing v with
  | zero => rfl
  | succ width ih => rw [le, List.length_cons, ih]

lemma ofLE_le {width v : ℕ} (h : v < 256 ^ width) : ofLE (le width v) = v := by
  induction width generalizing v with
  | zero =>
    rw [pow_zero] at h
    rw [le, ofLE]
    omega
  | succ width ih =>
    have hdiv : v / 256 < 256 ^ width := by
      rw [pow_succ] at h
      exact Nat.div_lt_of_lt_mul (by rwa [mul_comm] at h)
    have hbyte : (UInt8.ofNat v).toNat = v % 256 := rfl
    rw [le, ofLE, ih hdiv, hbyte]
    omega

/-- The size of a `fuse_dirent` with its name, padded to eight bytes. -/
def direntSize (name : Name) : ℕ :=
  (24 + name.length + 7) / 8 * 8

/-- A `fuse_dirent`. -/
def direntBytes (name : Name) (st : Stat) (off : ℤ) : List UInt8 :=
  le 8 st.ino ++ (le 8 off.toNat ++ (le 4 name.length ++ (le 4 (typeOf st.mode) ++ (name ++
    List.replicate (direntSize name - (24 + name.length)) 0))))

/-- Read a `fuse_dirent`. -/
def readDirent (bytes : List UInt8) : Option (Dirent × List UInt8) :=
  let name := (bytes.drop 24).take (ofLE ((bytes.drop 16).take 4))
  some
    (⟨name, ofLE (bytes.take 8), ofLE ((bytes.drop 20).take 4), ofLE ((bytes.drop 8).take 8)⟩,
    bytes.drop (direntSize name))

lemma length_direntBytes (name : Name) (st : Stat) (off : ℤ) :
    (direntBytes name st off).length = direntSize name := by
  have hsize : 24 + name.length ≤ direntSize name := by
    unfold direntSize
    omega
  unfold direntBytes
  simp only [List.length_append, length_le, List.length_replicate]
  omega

lemma typeOf_lt (mode : ℕ) : typeOf mode < 256 ^ 4 := by
  have hand : mode &&& S_IFMT ≤ S_IFMT := Nat.and_le_right
  unfold typeOf
  rw [Nat.shiftRight_eq_div_pow]
  have hdiv : (mode &&& S_IFMT) / 2 ^ 12 ≤ S_IFMT / 2 ^ 12 := Nat.div_le_div_right hand
  have hbound : S_IFMT / 2 ^ 12 < 256 ^ 4 := by decide
  omega

lemma readDirent_direntBytes {name : Name} {st : Stat} {off : ℤ} (hino : st.ino < 256 ^ 8)
    (hoff : 0 ≤ off ∧ off < 256 ^ 8) (hname : name.length < 256 ^ 4) (rest : List UInt8) :
    readDirent (direntBytes name st off ++ rest) =
      some (⟨name, st.ino, typeOf st.mode, off⟩, rest) := by
  have hdrop : (direntBytes name st off ++ rest).drop (direntSize name) = rest := by
    rw [← length_direntBytes name st off]
    exact List.drop_left
  have hnil : ∀ width v m, width ≤ m → (le width v).drop m = [] := by
    intro width v m hm
    exact List.drop_eq_nil_of_le (by rwa [length_le])
  have hoffset : ofLE (((direntBytes name st off ++ rest).drop 8).take 8) = off.toNat := by
    unfold direntBytes
    simp [ofLE_le (show off.toNat < 256 ^ 8 by omega)]
  have hlength : ofLE (((direntBytes name st off ++ rest).drop 16).take 4) = name.length := by
    unfold direntBytes
    simp [List.drop_append, hnil, ofLE_le hname]
  have htype : ofLE (((direntBytes name st off ++ rest).drop 20).take 4) = typeOf st.mode := by
    unfold direntBytes
    simp [List.drop_append, hnil, ofLE_le (typeOf_lt st.mode)]
  have hinode : ofLE ((direntBytes name st off ++ rest).take 8) = st.ino := by
    unfold direntBytes
    simp [ofLE_le hino]
  have hbytes : ((direntBytes name st off ++ rest).drop 24).take name.length = name := by
    unfold direntBytes
    simp [List.drop_append, hnil]
  unfold readDirent
  simp only [hlength, hbytes, hinode, htype, hoffset, hdrop, Int.toNat_of_nonneg hoff.1]

/-- The records of `READDIR`. -/
def dirents : Format Stat where
  size := direntSize
  write := direntBytes
  read := readDirent

/-- A `fuse_entry_out`. -/
def entryBytes (p : EntryParam) : List UInt8 :=
  le 8 p.ino ++ le 8 p.generation ++ le 8 p.entryTimeout.secs ++ le 8 p.attrTimeout.secs ++
    le 4 p.entryTimeout.nanos ++ le 4 p.attrTimeout.nanos ++ le 8 p.attr.ino ++
    le 8 p.attr.size.toNat ++ le 8 p.attr.blocks.toNat ++ le 8 p.attr.atime.1.toNat ++
    le 8 p.attr.mtime.1.toNat ++ le 8 p.attr.ctime.1.toNat ++ le 4 p.attr.atime.2.toNat ++
    le 4 p.attr.mtime.2.toNat ++ le 4 p.attr.ctime.2.toNat ++ le 4 p.attr.mode ++
    le 4 p.attr.nlink ++ le 4 p.attr.uid ++ le 4 p.attr.gid ++ le 4 p.attr.rdev ++
    le 4 p.attr.blksize.toNat ++ le 4 0

lemma length_entryBytes (p : EntryParam) : (entryBytes p).length = 128 := by
  unfold entryBytes
  simp only [List.length_append, length_le]

/-- The records of `READDIRPLUS`. -/
def direntsPlus : Format EntryParam where
  size := fun name => 128 + direntSize name
  write := fun name p off => entryBytes p ++ direntBytes name p.attr off
  read := fun bytes => readDirent (bytes.drop 128)

/-- The entries that fit the fields of a record. -/
def Fits {D : Type} (L : List (Item D)) : Prop :=
  ∀ e ∈ L, e.name.length < 256 ^ 4 ∧ e.id < 256 ^ 8 ∧ e.nextOffset < 2 ^ 63

lemma direntSize_pos (name : Name) : 0 < direntSize name := by
  unfold direntSize
  omega

lemma Fits.off {D : Type} {L : List (Item D)} (h : Fits L) {e : Item D} (he : e ∈ L) :
    0 ≤ asI64 e.nextOffset ∧ asI64 e.nextOffset < 256 ^ 8 := by
  have hlt := (h e he).2.2
  rw [asI64_of_lt hlt]
  omega

lemma dirents_lawful {L : List (Item FileKind)} (h : Fits L) :
    dirents.Lawful id (Writes plainArg L) := by
  refine ⟨fun name _ _ _ => direntSize_pos name, fun _ _ _ _ => length_direntBytes _ _ _, ?_⟩
  rintro name arg off ⟨e, he, _, harg, hname, hoff⟩ rest
  rw [show arg = _ from harg, hname, hoff]
  exact readDirent_direntBytes (h e he).2.1 (h.off he) (h e he).1 rest

lemma direntsPlus_lawful {ttl : Duration} {L : List (Item NodeAttr)} (h : Fits L) :
    direntsPlus.Lawful EntryParam.attr (Writes (plusArg ttl) L) := by
  refine ⟨fun name _ _ _ => Nat.add_pos_left (by decide) _, ?_, ?_⟩
  · intro name arg off _
    change (entryBytes arg ++ direntBytes name arg.attr off).length = 128 + direntSize name
    rw [List.length_append, length_entryBytes, length_direntBytes]
  · rintro name arg off ⟨e, he, _, harg, hname, hoff⟩ rest
    have hino : arg.attr.ino = e.id := (plusArg_stat e arg harg).1
    rw [hname, hoff]
    have hdrop : ∀ p bytes, (entryBytes p ++ bytes).drop 128 = bytes := by
      intro p bytes
      rw [← length_entryBytes p]
      exact List.drop_left
    change readDirent ((entryBytes _ ++ direntBytes _ _ _ ++ rest).drop 128) = _
    rw [List.append_assoc, hdrop]
    exact readDirent_direntBytes (hino ▸ (h e he).2.1) (h.off he) (h e he).1 rest

/-- The names `a` and `b` and a name with a zero byte between them, all for one node. -/
def items {D : Type} (id : NodeId) (data : D) : List (Item D) :=
  [⟨[97], id, data, 1⟩, ⟨[0], id, data, 2⟩, ⟨[98], id, data, 4⟩]

/-- Push entries until one is refused. -/
def push {D : Type} : List (Item D) → DirProg sig D (Fallible Unit)
  | [] => .ret (.ok ())
  | e :: es => .act (.add e.name e.id e.data e.nextOffset) fun (accepted : Bool) =>
    if accepted then push es else .ret (.ok ())

end Sample

/-- A filesystem whose directories list themselves under three names, with the attributes `attr`. -/
def Sample.shelfOf (attr : NodeAttr) : NodeFs :=
  { Sample.fs with
    readdir := fun _ this _ _ off _ =>
      Sample.push (Paging.behind Item.nextOffset off (Sample.items this .directory))
    readdirplus := fun _ this _ _ off _ =>
      Sample.push (Paging.behind Item.nextOffset off (Sample.items this attr)) }

/-- Directories with the times of the epoch. -/
def Sample.shelf : NodeFs :=
  Sample.shelfOf { kind := .directory }

/-- Directories from the first second that a `SystemTime` holds. -/
def Sample.ancient : NodeFs :=
  Sample.shelfOf { kind := .directory, mtime := ⟨-2 ^ 63, 0⟩ }

/-- Pushing into `readdir` follows the contract. -/
lemma Sample.emits_push {attr : NodeAttr} {n : ℕ} (todo : List (Item FileKind))
    (s : RtState (Sample.shelfOf attr).mounted.toFsSig) :
    @Emits (Sample.shelfOf attr).mounted _ n (fun _ _ => True) (fun _ s s' => s' = s) todo
      (Sample.push todo) s := by
  induction todo generalizing s with
  | nil => exact ⟨rfl, fun _ => rfl⟩
  | cons e es ih =>
    refine ⟨rfl, es, rfl, trivial, ⟨rfl, fun h => nomatch h⟩, ?_⟩
    rintro s' rfl
    exact ih s'

/-- Pushing entries with live nodes into `readdirplus` follows the contract. -/
lemma Sample.emits_pushPlus {attr : NodeAttr} {n : ℕ} (todo : List (Item NodeAttr))
    (s : RtState (Sample.shelfOf attr).mounted.toFsSig) (hlive : ∀ e ∈ todo, LiveItem e s) :
    @Emits (Sample.shelfOf attr).mounted _ n LiveItem (Retains n) todo (Sample.push todo) s := by
  induction todo generalizing s with
  | nil => exact ⟨rfl, fun _ => rfl⟩
  | cons e es ih =>
    refine ⟨rfl, es, rfl, hlive e List.mem_cons_self, ⟨rfl, fun h => nomatch h⟩, ?_⟩
    intro s' hretains
    exact ih s' fun e' he' => hretains.live (hlive e' (List.mem_cons_of_mem e he'))

/-- The entries of a directory are those of its node. -/
lemma Sample.id_of_mem_items {D : Type} {id : NodeId} {data : D} {e : Item D}
    (he : e ∈ Sample.items id data) : e.id = id := by
  unfold Sample.items at he
  simp only [List.mem_cons, List.not_mem_nil, or_false] at he
  rcases he with rfl | rfl | rfl
  · rfl
  · rfl
  · rfl

/-- `readdirplus` follows the contract. -/
lemma Sample.contract_shelf {attr : NodeAttr}
    {Called : Config (service (Sample.shelfOf attr).mounted) → ℤ → Prop} :
    @DirContract (Sample.shelfOf attr).mounted NodeAttr (Sample.shelfOf attr).readdirplus LiveItem
      Retains Called NodeId.ROOT 1 {} (Sample.items NodeId.ROOT attr) := by
  refine ⟨?_, ?_, ?_⟩
  · simp [Sample.items]
  · simp [Sample.items]
  · intro c off _ node parent payload s henters
    refine Sample.emits_pushPlus _ s ?_
    intro e he
    unfold LiveItem
    rw [Sample.id_of_mem_items (Paging.mem_of_mem_behind he)]
    exact henters.live

/-- The entries fit their records. -/
lemma Sample.items_fit {D : Type} (data : D) : Sample.Fits (Sample.items NodeId.ROOT data) := by
  unfold Sample.Fits Sample.items NodeId.ROOT
  simp

/-- The directory that the root of `Sample.shelf` is listed as: the name with a zero byte is not in
it. -/
theorem listing_complete_iff_shelf : ∃ c₀ : Config (service Sample.shelf.mounted),
    Complete (readdirShim Sample.dirents NodeId.ROOT 32 1 {}) Sample.dirents.decode 32
      [⟨[97], 1, 4, 1⟩, ⟨[98], 1, 4, 4⟩]
      (fun c off => c.Returns (readdirRequest Sample.dirents NodeId.ROOT 32 1 {} off.toNat))
      (fun c => Room c.state NodeId.ROOT 1) c₀ ∧
    Complete (readdirplusShim Sample.direntsPlus ⟨1, 0⟩ true NodeId.ROOT 160 1 {})
      Sample.direntsPlus.decode 160 [⟨[97], 1, 4, 1⟩, ⟨[98], 1, 4, 4⟩]
      (fun c off =>
        c.Returns (readdirplusRequest Sample.direntsPlus ⟨1, 0⟩ NodeId.ROOT 160 1 {} off.toNat))
      (PlusRoom NodeId.ROOT 1 (Sample.items NodeId.ROOT { kind := .directory })) c₀ := by
  have hr : Run anyAction (start Sample.shelf.mounted) (Sample.rootOpened _) :=
    Sample.run_rootOpened (serves_served (by decide +kernel))
  have hreg : ((Sample.rootOpened Sample.shelf.mounted).state.handles.table .dir).lookup 1 =
      some ⟨1, NodeId.ROOT⟩ := by decide +kernel
  refine ⟨Sample.rootOpened _, ?_, ?_⟩
  · refine (listing_complete_iff hr hreg {} 32).1 Sample.dirents
      (Sample.items NodeId.ROOT .directory) (Sample.dirents_lawful (Sample.items_fit _)) ?_
      ⟨?_, ?_, ?_⟩
    · decide +kernel
    · decide +kernel
    · decide +kernel
    · intro c off _ node parent payload s _
      exact Sample.emits_push _ s
  · refine ((listing_complete_iff hr hreg {} 160).2 Sample.direntsPlus ⟨1, 0⟩
      (Sample.items NodeId.ROOT { kind := .directory }) (Sample.direntsPlus_lawful
        (Sample.items_fit _)) ?_ Sample.contract_shelf).1 ?_
    · decide +kernel
    · unfold Item.Convertible
      decide +kernel

/-- A directory whose modification time is `2 ^ 63` seconds before the epoch cannot be listed: the
first reply is an error. -/
theorem listing_stops : ∃ c₀ : Config (service Sample.ancient.mounted),
    Run anyAction (start _) c₀ ∧
      (c₀.state.handles.table .dir).lookup 1 = some ⟨1, NodeId.ROOT⟩ ∧
      Sample.direntsPlus.Lawful EntryParam.attr
        (Writes (plusArg ⟨1, 0⟩) (Sample.items NodeId.ROOT
        { kind := .directory, mtime := ⟨-2 ^ 63, 0⟩ })) ∧
      @DirContract Sample.ancient.mounted NodeAttr Sample.ancient.readdirplus LiveItem Retains
        (ReaddirplusCalled Sample.direntsPlus ⟨1, 0⟩ NodeId.ROOT 160 1 {} c₀) NodeId.ROOT 1 {}
        (Sample.items NodeId.ROOT { kind := .directory, mtime := ⟨-2 ^ 63, 0⟩ }) ∧
      (∃ c', readdirplusShim Sample.direntsPlus ⟨1, 0⟩ true NodeId.ROOT 160 1 {} c₀ 0
        (.err EIO) c') ∧
      ¬ ReaddirplusComplete Sample.direntsPlus ⟨1, 0⟩ NodeId.ROOT 160 1 {}
        (Sample.items NodeId.ROOT { kind := .directory, mtime := ⟨-2 ^ 63, 0⟩ }) c₀ := by
  have hr : Run anyAction (start Sample.ancient.mounted) (Sample.rootOpened _) :=
    Sample.run_rootOpened (serves_served (by decide +kernel))
  have hreg : ((Sample.rootOpened Sample.ancient.mounted).state.handles.table .dir).lookup 1 =
      some ⟨1, NodeId.ROOT⟩ := by decide +kernel
  have hserves : Serves (Sample.rootOpened Sample.ancient.mounted)
      (readdirplusRequest Sample.direntsPlus ⟨1, 0⟩ NodeId.ROOT 160 1 {} 0) (.error .panic)
      ((Sample.rootOpened _).served none 40 _) := serves_served (by decide +kernel)
  have hshim : readdirplusShim Sample.direntsPlus ⟨1, 0⟩ true NodeId.ROOT 160 1 {}
      (Sample.rootOpened Sample.ancient.mounted) 0 (.err EIO) _ := ⟨_, _, hserves, rfl, rfl⟩
  refine ⟨_, hr, hreg, Sample.direntsPlus_lawful (Sample.items_fit _), Sample.contract_shelf,
    ⟨_, hshim⟩, ?_⟩
  intro hcomplete
  obtain ⟨data, heq, _⟩ := hcomplete.replies [] 0 _ .start _ _ hshim
  cases heq

end TypedFuse
