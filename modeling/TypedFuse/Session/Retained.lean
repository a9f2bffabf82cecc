import TypedFuse.Conc.Trace
import TypedFuse.Core.ErrorReply
import TypedFuse.Session.Pages

/-!
# Lookups retained by `readdirplus`

Two layers decide about an entry that a callback pushes: the `DirBuffer` writes a record or not, and
the accounting sink of `Runtime::readdirplus` retains a lookup or not.  They are linked by one
boolean, with which the buffer also answers for a name that it skips.
-/

namespace TypedFuse

open Conc Conc.Service TypedFuse.Runtime

variable {fs : NodeFs} {α : Type}

/-! ## What is retained -/

/-- A lookup that is asked for is retained. -/
def RtInstr.Retained {σ : FsSig} : (i : RtInstr σ) → i.Resp → Prop
  | .retainLookup _, r => r ≠ none
  | _, _ => True

/-- A node is live when its lookup is retained. -/
def RetainsLive (c : Config (service fs)) : Action (service fs) → Prop
  | .step n _ => ∀ req id, c.At n req (.retainLookup id) → (c.state.table.slot id).isSome
  | _ => True

/-- In a run in which nodes are live when they are retained, every such lookup is retained. -/
lemma retained_of_live {c : Config (service fs)} {es : List (Event (service fs))}
    (htr : Traced RetainsLive (start fs) c es) {e : Event (service fs)} (he : e ∈ es) :
    RtInstr.Retained e.instr e.resp := by
  obtain ⟨es₁, es₂, rfl⟩ := List.append_of_mem he
  obtain ⟨c₁, n, req, k, ch, s, -, hallow, ht, hexec, -⟩ := htr.fired rfl
  obtain ⟨m, i, r⟩ := e
  cases i with
  | retainLookup id =>
    have hlive := hallow req id ⟨m, k, ht⟩
    rcases addLookup_cases hexec with ⟨-, hslot, -⟩ | ⟨sl, hr, -⟩
    · rw [hslot] at hlive
      cases hlive
    · intro hnone
      exact Option.some_ne_none _ (hr.symm.trans hnone)
  | _ => trivial

/-- The accounting sink retains the lookups of the entries that were accepted. -/
lemma returnsIf_add {sink : Sink PlusEntry} {acc : Accounting} (hacc : acc.Exact sink) (name : Name)
    (id : NodeId) (attr : NodeAttr) (nextOffset : ℕ) :
    (Accounting.add (σ := fs.toFsSig) sink acc name id attr nextOffset).ReturnsIf RtInstr.Retained
      fun r => r.2.Exact sink := by
  refine Prog.ReturnsIf.step ?_
  intro generation _
  cases generation with
  | none => exact hacc
  | some generation =>
    have hsnoc := acceptedPlus_snoc sink acc.offered
      ⟨name, ⟨id, generation, attr⟩, nextOffset⟩
    refine Prog.ReturnsIf.ite (fun hsink => Prog.ReturnsIf.ite (fun hdots => ?_) fun hdots => ?_)
      fun hsink => ?_
    · rw [if_pos ⟨hsink, not_or.mpr hdots⟩] at hsnoc
      refine Prog.ReturnsIf.step ?_
      intro r hr
      cases r with
      | none => exact absurd rfl hr
      | some _ =>
        show acc.accepted ++ [id] = _
        rw [hsnoc, List.map_append, ← hacc]
        rfl
    · rw [if_neg fun h => hdots (not_or.mp h.2)] at hsnoc
      show acc.accepted = _
      rw [hsnoc, ← hacc]
    · rw [if_neg fun h => hsink h.1] at hsnoc
      show acc.accepted = _
      rw [hsnoc, ← hacc]

/-- The scope of a node. -/
lemma returnsIf_withNode {good : (i : RtInstr fs.toFsSig) → i.Resp → Prop}
    {P : Fallible α → Prop} {ino : ℕ}
    {body : NodeRef fs.Node → RtProg fs.toFsSig (Fallible α)} (hP : ∀ e, P (.error e))
    (hbody : ∀ node, (body node).ReturnsIf good P) : (withNode ino body).ReturnsIf good P := by
  intro node _
  cases node with
  | none => exact hP _
  | some node => exact (hbody node).bind fun a ha _ _ => ha

/-- The scope of a handle. -/
lemma returnsIf_withHandle {good : (i : RtInstr fs.toFsSig) → i.Resp → Prop}
    {P : Fallible α → Prop} {k : HandleKind} {ino fh : ℕ}
    {body : fs.Payload k → RtProg fs.toFsSig (Fallible α)} (hP : ∀ e, P (.error e))
    (hbody : ∀ payload, (body payload).ReturnsIf good P) :
    (withHandle k ino fh body).ReturnsIf good P := by
  refine Prog.ReturnsIf.step ?_
  intro record _
  cases record with
  | none => exact hP _
  | some record =>
    refine Prog.ReturnsIf.ite (fun _ => Prog.ReturnsIf.step ?_) fun _ _ _ => hP _
    intro granted _
    refine Prog.ReturnsIf.ite (fun _ => ?_) fun _ _ _ => hP _
    exact fun _ _ payload _ => (hbody payload).bind fun a ha _ _ _ _ => ha

variable (fs) in
/-- A `readdirplus` that succeeds has retained the lookups of the entries that were accepted. -/
lemma returnsIf_readdirplus (ino fh offset : ℕ) (sink : Sink PlusEntry) (caller : Caller) :
    (Runtime.readdirplus fs ino fh offset sink caller).ReturnsIf RtInstr.Retained fun r =>
      ∀ ids offered, r = .ok (ids, offered) →
        ids = (acceptedPlus sink offered).map fun e => e.entry.ino := by
  have herror : ∀ e : Failure, ∀ ids offered,
      (.error e : Fallible (List NodeId × List PlusEntry)) = .ok (ids, offered) →
        ids = (acceptedPlus sink offered).map fun e => e.entry.ino :=
    fun _ _ _ h => nomatch h
  refine returnsIf_withNode herror fun node => ?_
  intro parent _
  cases parent with
  | none => exact herror _
  | some parent =>
    refine returnsIf_withHandle herror fun payload => ?_
    refine Prog.ReturnsIf.bind (P := fun r => r.2.Exact sink) ?_ ?_
    · refine Prog.returnsIf_handle (K := fun acc : Accounting => acc.Exact sink) ?_ _ rfl
      intro i acc hacc
      cases i with
      | fs i => exact fun _ _ => hacc
      | add name id attr nextOffset => exact returnsIf_add hacc name id attr nextOffset
    · rintro ⟨r, acc⟩ hacc
      match r with
      | .ok _ =>
        intro ids offered h
        cases h
        exact hacc
      | .error (.errno e) =>
        exact (Prog.returnsIf_true _ _).bind fun _ _ => herror _
      | .error .panic => exact fun _ _ => herror _

/-! ## What is sent -/

/-- What an entry of `readdirplus` is listed with. -/
def PlusEntry.item (e : PlusEntry) : Item NodeAttr :=
  ⟨e.name, e.entry.ino, e.entry.attr, e.nextOffset⟩

variable {fmt : Format EntryParam} {ttl : Duration}

/-- The entries whose records are in the buffer. -/
def DirBuffer.sent (fmt : Format EntryParam) (ttl : Duration) (size : ℕ)
    (offered : List PlusEntry) : List PlusEntry :=
  (((DirBuffer.new size).sink (DirBuffer.takePlus fmt ttl)).accepted offered).filter
    fun e => 0 ∉ e.name

/-- The bytes of the buffer are the records of the entries that were sent. -/
lemma wrote_sent (fmt : Format EntryParam) (ttl : Duration) (size : ℕ)
    (offered : List PlusEntry) :
    fmt.Wrote (plusArg ttl) ((DirBuffer.new size).after (DirBuffer.takePlus fmt ttl) offered).buf
      ((DirBuffer.sent fmt ttl size offered).map PlusEntry.item) := by
  induction offered using List.reverseRecOn with
  | nil => exact .nil
  | append_singleton offered e ih =>
    have hsent : DirBuffer.sent fmt ttl size (offered ++ [e]) =
        DirBuffer.sent fmt ttl size offered ++
        (if (DirBuffer.takePlus fmt ttl ((DirBuffer.new size).after (DirBuffer.takePlus fmt ttl)
          offered) e).1 then [e] else []).filter fun e => 0 ∉ e.name := by
      unfold DirBuffer.sent
      rw [Sink.accepted_snoc, List.filter_append]
      rfl
    rw [DirBuffer.after_snoc, hsent]
    generalize (DirBuffer.new size).after (DirBuffer.takePlus fmt ttl) offered = b at ih ⊢
    by_cases hnul : 0 ∈ e.name
    · rw [DirBuffer.takePlus_of_nul hnul]
      simpa [hnul] using ih
    · cases hparam : entryToEntryParam e.entry.ino e.entry.generation e.entry.attr ttl with
      | none =>
        rw [DirBuffer.takePlus_of_none hnul hparam]
        simpa using ih
      | some arg =>
        rw [DirBuffer.takePlus_of_param hnul hparam]
        unfold DirBuffer.put
        by_cases hfull : b.buf.length + fmt.size e.name > b.capacity
        · rw [if_neg hnul, if_pos hfull]
          simpa using ih
        · rw [if_neg hnul, if_neg hfull]
          have harg : plusArg ttl e.item arg := ⟨_, hparam⟩
          have hone := ih.snoc harg
          rw [if_pos rfl, List.filter_cons_of_pos (by simpa using hnul), List.filter_nil,
            List.map_append]
          exact hone

/-- An entry that a sink never refuses is accepted. -/
lemma Sink.mem_accepted {E : Type} {sink : Sink E} {e : E} (h : ∀ seen, sink seen e = true)
    {offered : List E} (he : e ∈ offered) : e ∈ sink.accepted offered := by
  induction offered using List.reverseRecOn with
  | nil => exact absurd he List.not_mem_nil
  | append_singleton offered e' ih =>
    rw [Sink.accepted_snoc, List.mem_append]
    rcases List.mem_append.mp he with he | he
    · exact .inl (ih he)
    · right
      rw [← List.mem_singleton.mp he, if_pos (h offered)]
      exact List.mem_singleton_self e

/-- An accepted entry was offered. -/
lemma Sink.mem_of_mem_accepted {E : Type} {sink : Sink E} {e : E} {offered : List E}
    (he : e ∈ sink.accepted offered) : e ∈ offered := by
  induction offered using List.reverseRecOn with
  | nil => exact he
  | append_singleton offered e' ih =>
    rw [Sink.accepted_snoc, List.mem_append] at he
    rw [List.mem_append]
    rcases he with he | he
    · exact .inl (ih he)
    · right
      split at he
      · exact he
      · exact absurd he List.not_mem_nil

/-- A name with a zero byte is not one of the dots. -/
lemma Name.not_isDots {name : Name} (h : 0 ∈ name) : ¬ name.isDots := by
  rintro (rfl | rfl)
  · revert h
    decide
  · revert h
    decide

/-- The entries that were sent, without dots, are the accepted ones without zero bytes. -/
lemma filter_sent (fmt : Format EntryParam) (ttl : Duration) (size : ℕ)
    (offered : List PlusEntry) :
    (DirBuffer.sent fmt ttl size offered).filter (fun e => ¬ e.name.isDots) =
      (acceptedPlus ((DirBuffer.new size).sink (DirBuffer.takePlus fmt ttl)) offered).filter
        fun e => 0 ∉ e.name := by
  unfold DirBuffer.sent acceptedPlus
  rw [List.filter_filter, List.filter_filter]
  apply List.filter_congr
  intro e _
  exact Bool.and_comm _ _

/-- Every accepted entry other than dots is without zero bytes exactly if every offered entry is. -/
lemma accepted_plain_iff (fmt : Format EntryParam) (ttl : Duration) (size : ℕ)
    (offered : List PlusEntry) :
    (∀ e ∈ acceptedPlus ((DirBuffer.new size).sink (DirBuffer.takePlus fmt ttl)) offered,
      0 ∉ e.name) ↔ ∀ e ∈ offered, 0 ∉ e.name := by
  constructor
  · intro h e he hnul
    refine h e ?_ hnul
    have haccepted :
        e ∈ ((DirBuffer.new size).sink (DirBuffer.takePlus fmt ttl)).accepted offered := by
      refine Sink.mem_accepted (fun seen => ?_) he
      unfold DirBuffer.sink
      rw [DirBuffer.takePlus_of_nul hnul]
    unfold acceptedPlus
    rw [List.mem_filter]
    exact ⟨haccepted, by simpa using Name.not_isDots hnul⟩
  · intro h e he
    exact h e (Sink.mem_of_mem_accepted (List.mem_of_mem_filter he))

/-- A filtered list has the same multiset of values only if nothing was filtered out. -/
lemma map_filter_eq_iff {A B : Type} (f : A → B) (q : A → Bool) (l : List A) :
    (((l.filter q).map f : List B) : Multiset B) = (l.map f : List B) ↔ ∀ a ∈ l, q a := by
  constructor
  · intro h
    have hlength := congrArg Multiset.card h
    rw [Multiset.coe_card, Multiset.coe_card, List.length_map, List.length_map] at hlength
    exact List.length_filter_eq_length_iff.mp hlength
  · intro h
    rw [List.filter_eq_self.mpr h]

/-! ## What is sent is retained -/

/-- The inodes of the records of a reply, other than dots. -/
def sentInodes (ds : List Dirent) : Multiset ℕ :=
  ((ds.filter fun d => ¬ d.name.isDots).map Dirent.ino : List ℕ)

/-- The inodes of the records that a buffer holds. -/
lemma sentInodes_record (es : List PlusEntry) :
    sentInodes ((es.map PlusEntry.item).map (Item.record NodeAttr.kind)) =
      (((es.filter fun e => ¬ e.name.isDots).map fun e => e.entry.ino : List ℕ) :
        Multiset ℕ) := by
  unfold sentInodes
  rw [List.map_map, List.filter_map, List.map_map]
  rfl

/-- The kernel reads the records of a buffer back. -/
lemma decode_sent {offered : List PlusEntry}
    (hfmt : fmt.Lawful EntryParam.attr (Writes (plusArg ttl) (offered.map PlusEntry.item)))
    (size : ℕ) :
    ∃ ds, fmt.decode ((DirBuffer.new size).after (DirBuffer.takePlus fmt ttl) offered).buf =
      some ds ∧
      sentInodes ds = (((DirBuffer.sent fmt ttl size offered).filter
        fun e => ¬ e.name.isDots).map fun e => e.entry.ino : List ℕ) := by
  have hsub : ∀ e ∈ (DirBuffer.sent fmt ttl size offered).map PlusEntry.item,
      e ∈ offered.map PlusEntry.item ∧ e.writable := by
    intro e he
    obtain ⟨e', he', rfl⟩ := List.mem_map.mp he
    obtain ⟨hmem, hnul⟩ := List.mem_filter.mp he'
    exact ⟨List.mem_map_of_mem (Sink.mem_of_mem_accepted hmem), hnul⟩
  exact ⟨_, (wrote_sent fmt ttl size offered).decode_record hfmt hsub plusArg_stat,
    sentInodes_record _⟩

/-- A `readdirplus` that succeeds has retained exactly the lookups that it sends if and only if no
entry was pushed with a zero byte in its name. -/
theorem readdirplus_retains_iff {c : Config (service fs)} (hr : Run RetainsLive (start fs) c)
    {n ino size fh off : ℕ} {caller : Caller} {ids : List NodeId} {offered : List PlusEntry}
    (ht : c.threads[n]? = some ⟨n, readdirplusRequest fmt ttl ino size fh caller off,
      .done (.ok (.retained ids offered))⟩)
    (hfmt : fmt.Lawful EntryParam.attr (Writes (plusArg ttl) (offered.map PlusEntry.item))) :
    ∃ bytes ds, readdirplusReply fmt ttl size (.ok (.retained ids offered)) = .buf bytes ∧
      fmt.decode bytes = some ds ∧ (sentInodes ds = ids ↔ ∀ e ∈ offered, 0 ∉ e.name) := by
  obtain ⟨es, htr⟩ := hr.traced
  have hplay := htr.plays rfl ht
  have hids : ids = (acceptedPlus ((DirBuffer.new size).sink (DirBuffer.takePlus fmt ttl))
      offered).map fun e => e.entry.ino := by
    have hreturns := (returnsIf_readdirplus fs ino fh off
      ((DirBuffer.new size).sink (DirBuffer.takePlus fmt ttl)) caller).bind
      (f := fun r => .ret (r.map fun (ids, offered) => Reply.retained ids offered))
      (Q := fun a => ∀ ids offered, a = .ok (.retained ids offered) →
        ids = (acceptedPlus ((DirBuffer.new size).sink (DirBuffer.takePlus fmt ttl)) offered).map
          fun e => e.entry.ino) ?_
    · exact hplay.returnsIf hreturns
        (fun e he => retained_of_live htr (mem_eventsOf.mp he).1) ids offered rfl
    · rintro (e | ⟨ids', offered'⟩) h ids offered heq
      · cases heq
      · cases heq
        exact h _ _ rfl
  obtain ⟨ds, hdecode, hds⟩ := decode_sent hfmt size
  refine ⟨_, ds, rfl, hdecode, ?_⟩
  rw [hds, filter_sent, hids, map_filter_eq_iff, ← accepted_plain_iff fmt ttl size]
  simp

/-- Whether the node is live whose lookup a thread is about to retain. -/
def checkThread (s : RtState fs.toFsSig) : Option (Thread (service fs)) → Bool
  | some ⟨_, _, .running (.act (.retainLookup id) _)⟩ => (s.table.slot id).isSome
  | _ => true

/-- Whether nodes are live when their lookups are retained. -/
def checkRetains (c : Config (service fs)) : Action (service fs) → Bool
  | .step n _ => checkThread c.state c.threads[n]?
  | _ => true

lemma retainsLive_of_check (c : Config (service fs)) (a : Action (service fs))
    (h : checkRetains c a = true) : RetainsLive c a := by
  cases a with
  | step n ch =>
    rintro req id ⟨m, k, ht⟩
    change checkThread c.state c.threads[n]? = true at h
    rw [ht] at h
    exact h
  | _ => trivial

/-- The root of `Sample.shelf`, with a zero byte in one of its names, is opened and listed. -/
private def listShelf : List (Action (service Sample.shelf)) :=
  [.issue (.openNode .dir NodeId.ROOT 0 {})] ++ List.replicate 4 (.step 0 none) ++
    [.answer 0,
      .issue (readdirplusRequest Sample.direntsPlus ⟨1, 0⟩ NodeId.ROOT 1000 1 {} 0)] ++
    List.replicate 15 (.step 1 none) ++ [.answer 1]

/-- The entries that are offered. -/
def Sample.shelfEntries : List PlusEntry :=
  (Sample.items NodeId.ROOT { kind := .directory }).map fun e =>
    ⟨e.name, ⟨e.id, 0, e.data⟩, e.nextOffset⟩

set_option maxRecDepth 100000 in
private lemma listShelf_runs :
    ∃ c, Run RetainsLive (start Sample.shelf) c ∧
      c.threads[1]? = some
        ⟨1, readdirplusRequest Sample.direntsPlus ⟨1, 0⟩ NodeId.ROOT 1000 1 {} 0,
        .done (.ok (.retained [1, 1, 1] Sample.shelfEntries))⟩ := by
  have hruns : ∃ c, (start Sample.shelf).runs checkRetains listShelf = some c ∧
      c.threads[1]? = some
        ⟨1, readdirplusRequest Sample.direntsPlus ⟨1, 0⟩ NodeId.ROOT 1000 1 {} 0,
        .done (.ok (.retained [1, 1, 1] Sample.shelfEntries))⟩ := ⟨_, rfl, rfl⟩
  obtain ⟨c, hc, ht⟩ := hruns
  exact ⟨c, run_of_runs retainsLive_of_check hc, ht⟩

private lemma shelfEntries_fit : Sample.Fits (Sample.shelfEntries.map PlusEntry.item) := by
  unfold Sample.Fits
  decide +kernel

theorem readdirplus_retains_iff_shelf :
    ∃ bytes ds, readdirplusReply Sample.direntsPlus ⟨1, 0⟩ 1000
        (.ok (.retained [1, 1, 1] Sample.shelfEntries)) = .buf bytes ∧
      Sample.direntsPlus.decode bytes = some ds ∧
      (sentInodes ds = ([1, 1, 1] : List ℕ) ↔ ∀ e ∈ Sample.shelfEntries, 0 ∉ e.name) := by
  obtain ⟨c, hr, ht⟩ := listShelf_runs
  exact readdirplus_retains_iff hr ht (Sample.direntsPlus_lawful shelfEntries_fit)

/-- A name with a zero byte is retained and not sent. -/
theorem readdirplus_retains_unsent :
    ¬ ∀ (fs : NodeFs) (c : Config (service fs)), Run RetainsLive (start fs) c →
      ∀ (fmt : Format EntryParam) (ttl : Duration) (n ino size fh off : ℕ) (caller : Caller)
        (ids : List NodeId) (offered : List PlusEntry),
      c.threads[n]? = some ⟨n, readdirplusRequest fmt ttl ino size fh caller off,
        .done (.ok (.retained ids offered))⟩ →
      fmt.Lawful EntryParam.attr (Writes (plusArg ttl) (offered.map PlusEntry.item)) →
      ∃ bytes ds, readdirplusReply fmt ttl size (.ok (.retained ids offered)) = .buf bytes ∧
        fmt.decode bytes = some ds ∧ sentInodes ds = ids := by
  intro hclaim
  obtain ⟨c, hr, ht⟩ := listShelf_runs
  obtain ⟨bytes, ds, hreply, hdecode, hids⟩ := hclaim _ c hr _ _ _ _ _ _ _ _ _ _ ht
    (Sample.direntsPlus_lawful shelfEntries_fit)
  have hread : (Sample.direntsPlus.decode ((DirBuffer.new 1000).after
      (DirBuffer.takePlus Sample.direntsPlus ⟨1, 0⟩) Sample.shelfEntries).buf).map sentInodes =
        some {1, 1} := by
    decide +kernel
  obtain rfl := DirReply.buf.inj hreply
  rw [hdecode, Option.map_some, hids] at hread
  revert hread
  decide

end TypedFuse
