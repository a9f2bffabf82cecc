import TypedFuse.Core.ErrorReply
import TypedFuse.Path.Creation

/-!
# Directory listings as transactions

A listing binds names as it emits them, takes back what the sink refuses, and takes back everything
if the inner filesystem fails in the end.  `Listed` follows the names that are bound so far, with
their nodes, and the lookups that were retained for accepted entries; with none of either left the
namespace and the inode table are what they were.
-/

namespace TypedFuse

open Conc Conc.Service NodeTable TypedFuse.Runtime

/-! ## Names on top of a namespace -/

namespace Namespace

variable {ns₀ ns ns₁ : Namespace} {L : List (Dentry × NodeId)} {d : Dentry} {id : NodeId}

/-- The namespace `ns` is `ns₀` with the bindings `L` on top, each to a node of its own. -/
structure Extends (ns₀ ns : Namespace) (L : List (Dentry × NodeId)) : Prop where
  bound : ∀ d i, ns.find d = some i ↔ (d, i) ∈ L ∨ ns₀.find d = some i
  named : ∀ d i, (d, i) ∈ L → ns.aliases.lookup i = some {d}
  others : ∀ i, i ∉ L.map Prod.snd → ns.aliases.lookup i = ns₀.aliases.lookup i
  /-- The names were not bound before. -/
  free : ∀ d i, (d, i) ∈ L → ns₀.find d = none
  /-- The nodes had no names before. -/
  fresh : ∀ d i, (d, i) ∈ L → ns₀.aliases.lookup i = none
  distinct : (L.map Prod.fst).Nodup
  nodes : (L.map Prod.snd).Nodup

namespace Extends

lemma refl (ns : Namespace) : Extends ns ns [] := by
  refine ⟨?_, ?_, fun _ _ => rfl, ?_, ?_, List.nodup_nil, List.nodup_nil⟩
  · intro d i
    simp
  all_goals
    intro d i h
    exact absurd h List.not_mem_nil

/-- A new binding of a free name to a node without names. -/
lemma add (h : Extends ns₀ ns L) (hfree : ns.find d = none) (hid : id ∉ L.map Prod.snd)
    (hfresh : ns₀.aliases.lookup id = none) (hfind : ∀ d, ns₁.find d = ns.find d)
    (haliases : ns₁.aliases = ns.aliases) {key : ℕ} :
    Extends ns₀ (ns₁.record key id d) (L ++ [(d, id)]) := by
  have hd₀ : ns₀.find d = none := by
    cases hd : ns₀.find d with
    | none => rfl
    | some i =>
      rw [(h.bound d i).mpr (Or.inr hd)] at hfree
      cases hfree
  have hdL : ∀ i, (d, i) ∉ L := by
    intro i hi
    rw [(h.bound d i).mpr (Or.inl hi)] at hfree
    cases hfree
  have hnames : ns₁.names id = ∅ := by
    unfold names
    rw [haliases, h.others id hid, hfresh]
    rfl
  have hlookup : ∀ i, (ns₁.record key id d).aliases.lookup i =
      if i = id then some {d} else ns.aliases.lookup i := by
    intro i
    change (ns₁.aliases.insert id (insert d (ns₁.names id))).lookup i = _
    rw [BTreeMap.lookup_insert_ite, hnames, haliases]
    rfl
  refine ⟨?_, ?_, ?_, ?_, ?_, ?_, ?_⟩
  · intro d' i
    have hrec : (ns₁.record key id d).find d' = if d' = d then some id else ns₁.find d' :=
      find_addAlias
    rw [hrec, List.mem_append, List.mem_singleton]
    by_cases hd' : d' = d
    · subst hd'
      rw [if_pos rfl]
      constructor
      · intro heq
        rw [Option.some.inj heq]
        exact Or.inl (Or.inr rfl)
      · rintro ((hi | hi) | hi)
        · exact absurd hi (hdL i)
        · rw [(Prod.mk.inj hi).2]
        · rw [hd₀] at hi
          cases hi
    · rw [if_neg hd', hfind, h.bound]
      constructor
      · rintro (hi | hi)
        · exact Or.inl (Or.inl hi)
        · exact Or.inr hi
      · rintro ((hi | hi) | hi)
        · exact Or.inl hi
        · exact absurd (Prod.mk.inj hi).1 hd'
        · exact Or.inr hi
  · intro d' i hi
    rw [hlookup]
    rcases List.mem_append.mp hi with hmem | hmem
    · have hne : i ≠ id := by
        rintro rfl
        exact hid (List.mem_map.mpr ⟨(d', i), hmem, rfl⟩)
      rw [if_neg hne]
      exact h.named d' i hmem
    · obtain ⟨rfl, rfl⟩ := Prod.mk.inj (List.mem_singleton.mp hmem)
      exact if_pos rfl
  · intro i hi
    rw [List.map_append, List.mem_append, not_or] at hi
    have hne : i ≠ id := fun heq => hi.2 (heq ▸ List.mem_singleton_self _)
    rw [hlookup, if_neg hne, h.others i hi.1]
  · intro d' i hi
    rcases List.mem_append.mp hi with hi | hi
    · exact h.free d' i hi
    · obtain ⟨rfl, rfl⟩ := Prod.mk.inj (List.mem_singleton.mp hi)
      exact hd₀
  · intro d' i hi
    rcases List.mem_append.mp hi with hi | hi
    · exact h.fresh d' i hi
    · obtain ⟨rfl, rfl⟩ := Prod.mk.inj (List.mem_singleton.mp hi)
      exact hfresh
  · rw [List.map_append, List.nodup_append]
    refine ⟨h.distinct, List.nodup_singleton _, ?_⟩
    intro a ha b hb
    obtain ⟨⟨d', i⟩, hi, rfl⟩ := List.mem_map.mp ha
    obtain rfl := List.mem_singleton.mp hb
    rintro rfl
    exact hdL i hi
  · rw [List.map_append, List.nodup_append]
    refine ⟨h.nodes, List.nodup_singleton _, ?_⟩
    intro a ha b hb
    obtain rfl := List.mem_singleton.mp hb
    rintro rfl
    exact hid ha

/-- Taking the last binding back. -/
lemma remove (h : Extends ns₀ ns (L ++ [(d, id)])) :
    ns.find d = some id ∧ Extends ns₀ (ns.remove d).2 L := by
  have hlast : (d, id) ∈ L ++ [(d, id)] := by simp
  have hfind : ns.find d = some id := (h.bound d id).mpr (Or.inl hlast)
  have hdistinct := h.distinct
  have hnodes := h.nodes
  rw [List.map_append, List.nodup_append] at hdistinct hnodes
  have hdL : ∀ {d' i}, (d', i) ∈ L → d' ≠ d := by
    intro d' i hi heq
    exact hdistinct.2.2 d' (List.mem_map.mpr ⟨_, hi, rfl⟩) d (List.mem_singleton_self _) heq
  have hiL : ∀ {d' i}, (d', i) ∈ L → i ≠ id := by
    intro d' i hi heq
    exact hnodes.2.2 i (List.mem_map.mpr ⟨_, hi, rfl⟩) id (List.mem_singleton_self _) heq
  have halias : ns.aliases.lookup id = some {d} := h.named d id hlast
  have hlookup : ∀ i, (ns.remove d).2.aliases.lookup i =
      if i = id then none else ns.aliases.lookup i := by
    intro i
    have hrest : (ns.names id).erase d = ∅ := by
      unfold names
      rw [halias]
      simp
    unfold Namespace.remove
    rw [hfind]
    dsimp only
    rw [halias]
    dsimp only
    rw [if_pos hrest]
    exact BTreeMap.lookup_erase_ite ns.aliases id i
  refine ⟨hfind, ?_, ?_, ?_, ?_, ?_, hdistinct.1, hnodes.1⟩
  · intro d' i
    rw [find_remove]
    by_cases hd' : d' = d
    · subst hd'
      rw [if_pos rfl, h.free d' id hlast]
      constructor
      · intro heq
        cases heq
      · rintro (hi | hi)
        · exact absurd rfl (hdL hi)
        · cases hi
    · rw [if_neg hd', h.bound, List.mem_append, List.mem_singleton]
      constructor
      · rintro ((hi | hi) | hi)
        · exact Or.inl hi
        · exact absurd (Prod.mk.inj hi).1 hd'
        · exact Or.inr hi
      · rintro (hi | hi)
        · exact Or.inl (Or.inl hi)
        · exact Or.inr hi
  · intro d' i hi
    rw [hlookup, if_neg (hiL hi)]
    exact h.named d' i (List.mem_append_left _ hi)
  · intro i hi
    rw [hlookup]
    split
    · next heq =>
      rw [heq]
      exact (h.fresh d id hlast).symm
    · next hne =>
      refine h.others i ?_
      rw [List.map_append, List.mem_append, not_or]
      exact ⟨hi, fun hmem => hne (List.mem_singleton.mp hmem)⟩
  · exact fun d' i hi => h.free d' i (List.mem_append_left _ hi)
  · exact fun d' i hi => h.fresh d' i (List.mem_append_left _ hi)

/-- Without bindings on top the namespaces bind the same. -/
lemma eq_of_nil (h : Extends ns₀ ns []) :
    ns.byName = ns₀.byName ∧ ns.aliases = ns₀.aliases := by
  refine ⟨Finmap.ext_lookup fun d => ?_, Finmap.ext_lookup fun i => h.others i List.not_mem_nil⟩
  refine Option.ext fun i => ?_
  have hi := h.bound d i
  simpa [find] using hi

end Extends

end Namespace

/-! ## Emission -/

variable {P : PathFilesystem} {n : ℕ} {D τ : Type}

/-- The references that a listing has on top of the table it started with: a link of every node
that it bound, the retained lookups and the leases of the runtime. -/
def listingRefs (L : List (Dentry × NodeId)) (A R : List NodeId) : Counter → NodeId → ℕ
  | .links, i => (L.map Prod.snd).count i
  | .lookups, i => A.count i
  | .leases, i => R.count i
  | .opens, _ => 0

lemma bump_links (L : List (Dentry × NodeId)) (A R : List NodeId) (d : Dentry) (id : NodeId)
    (c : Counter) (i : NodeId) :
    listingRefs (L ++ [(d, id)]) A R c i = bump (listingRefs L A R) .links id c i := by
  cases c with
  | links =>
    simp only [listingRefs, bump, List.map_append, List.count_append, true_and]
    by_cases hi : i = id
    · simp [hi]
    · simp [hi, Ne.symm hi]
  | lookups => rfl
  | opens => rfl
  | leases => rfl

lemma bump_lookups (L : List (Dentry × NodeId)) (A R : List NodeId) (id : NodeId)
    (c : Counter) (i : NodeId) :
    listingRefs L (A ++ [id]) R c i = bump (listingRefs L A R) .lookups id c i := by
  cases c with
  | lookups =>
    simp only [listingRefs, bump, List.count_append, true_and]
    by_cases hi : i = id
    · simp [hi]
    · simp [hi, Ne.symm hi]
  | links => rfl
  | opens => rfl
  | leases => rfl

lemma bump_forget (A R : List NodeId) (id : NodeId) (c : Counter) (i : NodeId) :
    listingRefs [] (id :: A) R c i = bump (listingRefs [] A R) .lookups id c i := by
  cases c with
  | lookups =>
    simp only [listingRefs, bump, List.count_cons, true_and]
    by_cases hi : i = id
    · simp [hi]
    · simp [hi, Ne.symm hi]
  | links => rfl
  | opens => rfl
  | leases => rfl

lemma bump_lease (L : List (Dentry × NodeId)) (A : List NodeId) (id : NodeId)
    (c : Counter) (i : NodeId) :
    listingRefs L A [id] c i = bump (listingRefs L A []) .leases id c i := by
  cases c with
  | leases =>
    simp only [listingRefs, bump, true_and]
    by_cases hi : i = id
    · simp [hi]
    · simp [hi, Ne.symm hi]
  | links => rfl
  | opens => rfl
  | lookups => rfl

/-- A listing of the directory `this` is at work between the tables `(ns₀, t₀)` and `(ns, t)`:
it has accepted entries with the names `names`, retained the lookups `A` and bound `L`. -/
structure Listed (ns₀ : Namespace) (t₀ : PathTable P) (this : NodeId) (R : List NodeId)
    (names : List Name) (A : List NodeId) (L : List (Dentry × NodeId)) (ns : Namespace)
    (t : PathTable P) : Prop where
  binds : Namespace.Extends ns₀ ns L
  refs : Exceeds t₀ t (listingRefs L A R)
  /-- The new bindings are those of the accepted names that were not bound. -/
  accepted : ∀ d, d ∈ L.map Prod.fst ↔ d.parent = this ∧ d.name ∈ names ∧
    ns₀.find d = none
  /-- The nodes that the listing bound are new. -/
  new : ∀ i ∈ L.map Prod.snd, t₀.slot i = none

/-- What a listing starts from: a well-formed table in which a node that is not live has no
names. -/
structure Settled (ns₀ : Namespace) (t₀ : PathTable P) : Prop where
  wf : t₀.WF
  dead : ∀ i, t₀.slot i = none → ns₀.aliases.lookup i = none

namespace Listed

variable {ns₀ ns ns' : Namespace} {t₀ t t' : PathTable P} {this id : NodeId} {R A : List NodeId}
  {names : List Name} {L : List (Dentry × NodeId)} {d : Dentry}

/-- A node that the listing bound has a link. -/
lemma mem_nodes_of_links (h : Listed ns₀ t₀ this R names A L ns t) (h₀ : t₀.slot id = none)
    (hdead : t.slot id = none) : id ∉ L.map Prod.snd := by
  intro hmem
  have hcount := h.refs.count .links id
  rw [count_of_dead hdead, count_of_dead h₀, zero_add] at hcount
  have hpos : 0 < (L.map Prod.snd).count id := List.count_pos_iff.mpr hmem
  rw [show listingRefs L A R .links id = (L.map Prod.snd).count id from rfl] at hcount
  omega

/-- `Namespace::insert` made a node for a name that is then accepted. -/
lemma made (h : Listed ns₀ t₀ this R names A L ns t) (hs : Settled ns₀ t₀)
    (hfree : ns.find d = none) {key : ℕ} {ns₁ : Namespace}
    (hkey : ns.takeKey = some (key, ns₁))
    (hins : t.insert (⟨key⟩ : PathNode) this = some (id, t')) :
    Namespace.Extends ns₀ (ns₁.record key id d) (L ++ [(d, id)]) ∧
      Exceeds t₀ t' (listingRefs (L ++ [(d, id)]) A R) ∧ t₀.slot id = none := by
  obtain ⟨hrefs, hdead₀⟩ := h.refs.insert hs.wf hins
  have hid := h.mem_nodes_of_links hdead₀ (h.refs.wf.insert_dead hins)
  have hns₁ : ns₁ = { ns with nextKey := ns.nextKey + 1 } := by
    unfold Namespace.takeKey at hkey
    split at hkey
    · exact (Prod.mk.inj (Option.some.inj hkey)).2.symm
    · cases hkey
  refine ⟨h.binds.add hfree hid (hs.dead id hdead₀) ?_ ?_, hrefs.congr (bump_links L A R d id),
    hdead₀⟩
  · intro d'
    rw [hns₁]
    rfl
  · rw [hns₁]

/-- The last binding is taken back with its link. -/
lemma takeBack (hb : Namespace.Extends ns₀ ns (L ++ [(d, id)]))
    (hr : Exceeds t₀ t (listingRefs (L ++ [(d, id)]) A R)) (h₀ : t₀.WF) :
    Namespace.Extends ns₀ (ns.remove d).2 L ∧
      Exceeds t₀ ((ns.find d).elim t t.removeLink) (listingRefs L A R) := by
  obtain ⟨hfind, hb'⟩ := hb.remove
  refine ⟨hb', ?_⟩
  rw [hfind]
  exact (hr.congr fun c i => (bump_links L A R d id c i).symm).decr h₀

end Listed

/-- What a sink does with an entry, to the accepted names, the retained lookups and the table. -/
inductive SinkStep (name : Name) (id : NodeId) :
    List Name × List NodeId → Bool → List Name × List NodeId →
    PathTable P → PathTable P → Prop where
  | refused (x : List Name × List NodeId) (t : PathTable P) : SinkStep name id x false x t t
  | dots (h : name.isDots) (x : List Name × List NodeId) (t : PathTable P) :
      SinkStep name id x true x t t
  | listed (h : ¬ name.isDots) (names : List Name) (A : List NodeId) (t : PathTable P) :
      SinkStep name id (names, A) true (names ++ [name], A) t t
  | retained (h : ¬ name.isDots) (names : List Name) (A : List NodeId) {t t' : PathTable P}
      {sl : Slot (PathNodeFs.sig P).Node} (ht : t.incr .lookups id = some (some sl, t')) :
      SinkStep name id (names, A) true (names ++ [name], A ++ [id]) t t'

/-- A refused entry changes nothing. -/
lemma SinkStep.of_refused {name : Name} {id : NodeId} {x x' : List Name × List NodeId}
    {t t' : PathTable P} (h : SinkStep name id x false x' t t') : x' = x ∧ t' = t := by
  cases h
  exact ⟨rfl, rfl⟩

/-- A sink of the runtime: it passes the instructions of callbacks on, and its own work is one
`SinkStep` for every entry.  `rep` says which accepted names and retained lookups its state stands
for. -/
structure SinkOk (n : ℕ) (h : (i : DirInstr (PathNodeFs.sig P) D) → τ →
    RtProg (PathNodeFs.sig P) (i.Resp × τ)) (rep : τ → List Name × List NodeId → Prop) :
      Prop where
  fs : ∀ i acc, h (.fs i) acc = Runtime.sect (.fs i) >>= fun r => .ret (r, acc)
  add : ∀ (s : RtState (PathNodeFs.sig P)) name id data nextOffset acc x, rep acc x →
    (service (pathNodeFs P)).Ensures n s (h (.add name id data nextOffset) acc) fun r s' =>
      s'.fs = s.fs ∧ ∃ x', rep r.2 x' ∧ SinkStep name id x r.1 x' s.table s'.table

section InDir

variable {ok : RtInstr (PathNodeFs.sig P) → RtState (PathNodeFs.sig P) → Prop} {α β : Type}
  {h : (i : DirInstr (PathNodeFs.sig P) D) → τ → RtProg (PathNodeFs.sig P) (i.Resp × τ)}
  {acc : τ} {s : RtState (PathNodeFs.sig P)} {Q : β × τ → RtState (PathNodeFs.sig P) → Prop}

/-- A callback inside a directory callback leaves the sink alone. -/
lemma ensuresIf_inDir
    (hfs : ∀ i acc, h (.fs i) acc = Runtime.sect (.fs i) >>= fun r => .ret (r, acc))
    {p : PathNodeFs.Callback P α} {f : α → PathNodeFs.DirCallback P D β}
    (hp : (service (pathNodeFs P)).EnsuresIf ok n s (call (σ := PathNodeFs.sig P) p)
      fun a s' => (service (pathNodeFs P)).EnsuresIf ok n s' ((f a).handle h acc) Q) :
    (service (pathNodeFs P)).EnsuresIf ok n s ((FsProg.inDir p >>= f).handle h acc) Q := by
  refine Eq.mpr (congrArg (fun q => (service (pathNodeFs P)).EnsuresIf ok n s q Q)
    (handle_inDir hfs p f acc)) ?_
  exact hp.bind fun a s' ha => ha

/-- A sequence of directory callbacks passes the sink on. -/
lemma ensuresIf_handle_bind {p : PathNodeFs.DirCallback P D α}
    {f : α → PathNodeFs.DirCallback P D β}
    {Q' : α × τ → RtState (PathNodeFs.sig P) → Prop}
    (hp : (service (pathNodeFs P)).EnsuresIf ok n s (p.handle h acc) Q')
    (hf : ∀ r s', Q' r s' →
      (service (pathNodeFs P)).EnsuresIf ok n s' ((f r.1).handle h r.2) Q) :
    (service (pathNodeFs P)).EnsuresIf ok n s ((p >>= f).handle h acc) Q := by
  refine Eq.mpr (congrArg (fun q => (service (pathNodeFs P)).EnsuresIf ok n s q Q)
    (Prog.handle_bind h p f acc)) ?_
  exact EnsuresIf.bind hp hf

/-- A callback inside a directory callback, without a condition on the steps. -/
lemma ensures_inDir
    (hfs : ∀ i acc, h (.fs i) acc = Runtime.sect (.fs i) >>= fun r => .ret (r, acc))
    {p : PathNodeFs.Callback P α} {f : α → PathNodeFs.DirCallback P D β}
    (hp : (service (pathNodeFs P)).Ensures n s (call (σ := PathNodeFs.sig P) p)
      fun a s' => (service (pathNodeFs P)).Ensures n s' ((f a).handle h acc) Q) :
    (service (pathNodeFs P)).Ensures n s ((FsProg.inDir p >>= f).handle h acc) Q := by
  refine EnsuresIf.of_true (ensuresIf_inDir hfs ?_)
  exact (EnsuresIf.of_ensures hp).mono fun a s' ha => EnsuresIf.of_ensures ha

/-- A sequence of directory callbacks, without a condition on the steps. -/
lemma ensures_handle_bind {p : PathNodeFs.DirCallback P D α}
    {f : α → PathNodeFs.DirCallback P D β}
    {Q' : α × τ → RtState (PathNodeFs.sig P) → Prop}
    (hp : (service (pathNodeFs P)).Ensures n s (p.handle h acc) Q')
    (hf : ∀ r s', Q' r s' → (service (pathNodeFs P)).Ensures n s' ((f r.1).handle h r.2) Q) :
    (service (pathNodeFs P)).Ensures n s ((p >>= f).handle h acc) Q := by
  refine EnsuresIf.of_true (ensuresIf_handle_bind (EnsuresIf.of_ensures hp) ?_)
  exact fun r s' hr => EnsuresIf.of_ensures (hf r s' hr)

end InDir

/-- What `enumerate` does: dots name the directory and its parent, other names are inserted. -/
lemma Effect.enumerate {ns : Namespace} {t : PathTable P} (this parent : NodeId) (name : Name) :
    Effect P n ns t (PathNodeFs.enumerate this parent name) fun r ns' t' =>
      (name.isDots ∧ r.2 = none ∧ ns' = ns ∧ t' = t) ∨
        (¬ name.isDots ∧ ∃ new, Inserted ns t ⟨this, name⟩ this (r.1, new) ns' t' ∧
          r.2 = if new then some ⟨this, name⟩ else none) := by
  refine ite (fun h => ret (Or.inl ⟨Or.inl h, rfl, rfl, rfl⟩)) fun h₁ => ?_
  refine ite (fun h => ret (Or.inl ⟨Or.inr h, rfl, rfl, rfl⟩)) fun h₂ => ?_
  refine (insert this name).bind ?_
  rintro ⟨id, new⟩ ns' t' h
  exact ret (Or.inr ⟨not_or.mpr ⟨h₁, h₂⟩, new, h, rfl⟩)

section Emission

variable {h : (i : DirInstr (PathNodeFs.sig P) D) → τ →
    RtProg (PathNodeFs.sig P) (i.Resp × τ)}
  {rep : τ → List Name × List NodeId → Prop} {ns₀ : Namespace} {t₀ : PathTable P}
  {this parent : NodeId} {R : List NodeId}

/-- A listing is at work in a state, with what its sink has accepted. -/
def ListedIn (ns₀ : Namespace) (t₀ : PathTable P) (this : NodeId) (R : List NodeId)
    (accepted : List Name × List NodeId → Prop) (inserted : List Dentry)
    (s : RtState (PathNodeFs.sig P)) : Prop :=
  ∃ x L, accepted x ∧ inserted = L.map Prod.fst ∧
    Listed ns₀ t₀ this R x.1 x.2 L s.fs.ns s.table

/-- An entry for a node that has its name already. -/
lemma Listed.known {x x' : List Name × List NodeId} {L : List (Dentry × NodeId)}
    {ns : Namespace} {t t' : PathTable P} {name : Name} {id : NodeId} {taken : Bool}
    (hl : Listed ns₀ t₀ this R x.1 x.2 L ns t) (h₀ : t₀.WF)
    (hname : name.isDots ∨ ∃ i, ns.find ⟨this, name⟩ = some i)
    (hs : SinkStep name id x taken x' t t') :
    Listed ns₀ t₀ this R x'.1 x'.2 L ns t' := by
  have hadd : ¬ name.isDots → ∀ d : Dentry, d ∈ L.map Prod.fst ↔
      d.parent = this ∧ d.name ∈ x.1 ++ [name] ∧ ns₀.find d = none := by
    intro hdots d
    obtain ⟨i, hi⟩ := hname.resolve_left hdots
    rw [hl.accepted, List.mem_append, List.mem_singleton]
    constructor
    · rintro ⟨hp, hm, hf⟩
      exact ⟨hp, Or.inl hm, hf⟩
    · rintro ⟨hp, hm | hm, hf⟩
      · exact ⟨hp, hm, hf⟩
      · -- the name is bound, by the listing since it was free
        have hd : d = ⟨this, name⟩ := by
          cases d
          exact congrArg₂ _ hp hm
        subst hd
        rcases (hl.binds.bound _ i).mp hi with hmem | hbound
        · exact (hl.accepted _).mp (List.mem_map.mpr ⟨_, hmem, rfl⟩)
        · rw [hf] at hbound
          cases hbound
  cases hs with
  | refused => exact hl
  | dots => exact hl
  | listed hdots => exact ⟨hl.binds, hl.refs, hadd hdots, hl.new⟩
  | retained hdots _ _ ht =>
    exact ⟨hl.binds, (hl.refs.incr h₀ ht).congr (bump_lookups L _ R id), hadd hdots, hl.new⟩

/-- The sink has accepted an entry for a node that was made for it. -/
lemma Listed.accept {x x' : List Name × List NodeId} {L : List (Dentry × NodeId)}
    {ns ns' : Namespace} {t t₁ t' : PathTable P} {name : Name} {id : NodeId}
    (hl : Listed ns₀ t₀ this R x.1 x.2 L ns t) (h₀ : t₀.WF) (hdots : ¬ name.isDots)
    (hb : Namespace.Extends ns₀ ns' (L ++ [(⟨this, name⟩, id)]))
    (hr : Exceeds t₀ t₁ (listingRefs (L ++ [(⟨this, name⟩, id)]) x.2 R))
    (hid : t₀.slot id = none) (hs : SinkStep name id x true x' t₁ t') :
    Listed ns₀ t₀ this R x'.1 x'.2 (L ++ [(⟨this, name⟩, id)]) ns' t' := by
  have hfree₀ : ns₀.find ⟨this, name⟩ = none := hb.free _ id (by simp)
  have hadd : ∀ d : Dentry, d ∈ (L ++ [((⟨this, name⟩ : Dentry), id)]).map Prod.fst ↔
      d.parent = this ∧ d.name ∈ x.1 ++ [name] ∧ ns₀.find d = none := by
    intro d
    rw [List.map_append, List.mem_append, hl.accepted, List.mem_append, List.mem_singleton]
    constructor
    · rintro (⟨hp, hm, hf⟩ | hd)
      · exact ⟨hp, Or.inl hm, hf⟩
      · obtain rfl := List.mem_singleton.mp hd
        exact ⟨rfl, Or.inr rfl, hfree₀⟩
    · rintro ⟨hp, hm | hm, hf⟩
      · exact Or.inl ⟨hp, hm, hf⟩
      · refine Or.inr (List.mem_singleton.mpr ?_)
        cases d
        exact congrArg₂ _ hp hm
  have hnew : ∀ i ∈ (L ++ [((⟨this, name⟩ : Dentry), id)]).map Prod.snd,
      t₀.slot i = none := by
    intro i hi
    rw [List.map_append, List.mem_append] at hi
    rcases hi with hi | hi
    · exact hl.new i hi
    · obtain rfl := List.mem_singleton.mp hi
      exact hid
  cases hs with
  | dots hd => exact absurd hd hdots
  | listed => exact ⟨hb, hr, hadd, hnew⟩
  | retained _ _ _ ht => exact ⟨hb, (hr.incr h₀ ht).congr (bump_lookups _ _ R id), hadd, hnew⟩

/-- Every entry that the inner filesystem emits keeps a listing at work. -/
lemma ensures_emitAll (hok : SinkOk n h rep) (hs₀ : Settled ns₀ t₀) (listing : Listing D)
    (inserted : List Dentry) (acc : τ) (s : RtState (PathNodeFs.sig P))
    (hl : ListedIn ns₀ t₀ this R (rep acc) inserted s) :
    (service (pathNodeFs P)).Ensures n s
      ((PathNodeFs.emitAll this parent listing inserted).handle h acc)
      fun r s' => ListedIn ns₀ t₀ this R (rep r.2) r.1.2 s' := by
  induction listing generalizing inserted acc s with
  | finish result => exact hl
  | emit name data nextOffset next ih =>
    obtain ⟨x, L, hrep, rfl, hl⟩ := hl
    refine ensures_inDir hok.fs
      (Ensures.mono (Effect.enumerate (n := n) this parent name s rfl rfl) ?_)
    rintro ⟨id, dentry⟩ s₁ hen
    refine Ensures.bind (hok.add s₁ name id data nextOffset acc x hrep) ?_
    rintro ⟨accepted, acc'⟩ s₂ ⟨hfs, x', hrep', hsink⟩
    rcases hen with ⟨hdots, hnone, hns, ht⟩ | ⟨hdots, new, hins, hd⟩
    · obtain rfl : dentry = none := hnone
      refine ih accepted _ acc' s₂ ⟨x', L, hrep', rfl, ?_⟩
      rw [hfs, hns]
      exact (ht ▸ hl).known hs₀.wf (Or.inl hdots) hsink
    · generalize hns : s₁.fs.ns = ns₁ at hins
      generalize ht : s₁.table = t₁ at hins hsink
      cases hins with
      | found hbound =>
        obtain rfl : dentry = none := hd
        refine ih accepted _ acc' s₂ ⟨x', L, hrep', rfl, ?_⟩
        rw [hfs, hns]
        exact hl.known hs₀.wf (Or.inr ⟨id, hbound⟩) hsink
      | made hfree hkey hinsert =>
        obtain rfl : dentry = some ⟨this, name⟩ := hd
        obtain ⟨hb, hr, hnew⟩ := hl.made hs₀ hfree hkey hinsert
        cases accepted with
        | true =>
          refine ih true _ acc' s₂ ⟨x', L ++ [(⟨this, name⟩, id)], hrep', by simp, ?_⟩
          rw [hfs, hns]
          exact hl.accept hs₀.wf hdots hb hr hnew hsink
        | false =>
          obtain ⟨rfl, ht₂⟩ := hsink.of_refused
          have hns₂ : s₂.fs.ns = _ := (congrArg PathState.ns hfs).trans hns
          -- the name is taken back at once
          refine ensures_inDir hok.fs
            (Ensures.mono (Effect.removeDentry (n := n) _ s₂ hns₂ ht₂) ?_)
          rintro _ s₃ ⟨hns₃, ht₃⟩
          obtain ⟨hb', hr'⟩ := Listed.takeBack hb hr hs₀.wf
          refine ih false _ acc' s₃ ⟨x', L, hrep', rfl, ?_⟩
          rw [hns₃, ht₃]
          exact ⟨hb', hr', hl.accepted, hl.new⟩

/-- Taking all bindings back, from the last to the first. -/
lemma Effect.rollback {A : List NodeId} {L : List (Dentry × NodeId)} {ns : Namespace}
    {t : PathTable P} (h₀ : t₀.WF) (hb : Namespace.Extends ns₀ ns L)
    (hr : Exceeds t₀ t (listingRefs L A R)) :
    Effect P n ns t (PathNodeFs.rollback (L.map Prod.fst).reverse) fun _ ns' t' =>
      Namespace.Extends ns₀ ns' [] ∧ Exceeds t₀ t' (listingRefs [] A R) := by
  induction L using List.reverseRecOn generalizing ns t with
  | nil => exact ret ⟨hb, hr⟩
  | append_singleton L x ih =>
    obtain ⟨d, id⟩ := x
    rw [List.map_append, List.reverse_append]
    refine (removeDentry d).bind ?_
    rintro _ _ _ ⟨rfl, rfl⟩
    obtain ⟨hb', hr'⟩ := Listed.takeBack hb hr h₀
    exact ih hb' hr'

/-- How a listing ends: accepted names are bound, or everything is taken back but the retained
lookups. -/
def ListingEnd (ns₀ : Namespace) (t₀ : PathTable P) (this : NodeId) (R : List NodeId)
    (x : List Name × List NodeId) (ns : Namespace) (t : PathTable P) : Fallible Unit → Prop
  | .ok _ => ∃ L, Listed ns₀ t₀ this R x.1 x.2 L ns t
  | .error (.errno _) => Namespace.Extends ns₀ ns [] ∧ Exceeds t₀ t (listingRefs [] x.2 R)
  | .error .panic => True

variable (this parent) in
/-- `readdir` and `readdirplus` with a sink of the runtime. -/
lemma ensures_listDir (hok : SinkOk n h rep) (hs₀ : Settled ns₀ t₀) (node : PathNode)
    {list : Path → PathNodeFs.Callback P (Listing D)}
    (hlist : ∀ p ns t, Effect P n ns t (list p) fun _ ns' t' => ns' = ns ∧ t' = t)
    {acc : τ} (hacc : rep acc ([], [])) {s : RtState (PathNodeFs.sig P)} (hns : s.fs.ns = ns₀)
    (ht : Exceeds t₀ s.table (listingRefs [] [] R)) :
    (service (pathNodeFs P)).Ensures n s ((PathNodeFs.listDir node this parent list).handle h acc)
      fun r s' => ∃ x, rep r.2 x ∧ ListingEnd ns₀ t₀ this R x s'.fs.ns s'.table r.1 := by
  refine ensures_inDir hok.fs (Ensures.mono (Effect.readLock (n := n) s rfl rfl) ?_)
  rintro _ s₁ ⟨hns₁, ht₁⟩
  refine ensures_inDir hok.fs (Ensures.mono (Effect.nodePath (n := n) node s₁ rfl rfl) ?_)
  rintro path s₂ ⟨hns₂, ht₂⟩
  rw [hns₁, hns] at hns₂
  rw [ht₁] at ht₂
  have hstart : Namespace.Extends ns₀ s₂.fs.ns [] ∧
      Exceeds t₀ s₂.table (listingRefs [] [] R) := by
    rw [hns₂, ht₂]
    exact ⟨.refl ns₀, ht⟩
  cases path with
  | none =>
    refine ensures_inDir hok.fs (Ensures.mono (Effect.readUnlock (n := n) s₂ rfl rfl) ?_)
    rintro _ s₃ ⟨hns₃, ht₃⟩
    refine ⟨_, hacc, ?_⟩
    rw [hns₃, ht₃]
    exact hstart
  | some path =>
    refine ensures_inDir hok.fs (Ensures.mono (hlist path _ _ s₂ rfl rfl) ?_)
    rintro listing s₃ ⟨hns₃, ht₃⟩
    have hlisted : ListedIn ns₀ t₀ this R (rep acc) [] s₃ := by
      refine ⟨_, [], hacc, rfl, ?_⟩
      rw [hns₃, ht₃]
      exact ⟨hstart.1, hstart.2, by simp, by simp⟩
    refine ensures_handle_bind (ensures_emitAll hok hs₀ listing [] acc s₃ hlisted) ?_
    rintro ⟨⟨result, inserted⟩, acc'⟩ s₄ ⟨x, L, hrep, rfl, hl⟩
    have hundo : (service (pathNodeFs P)).Ensures n s₄
        (call (σ := PathNodeFs.sig P) (PathNodeFs.undo result (L.map Prod.fst)))
        fun _ s' => ListingEnd ns₀ t₀ this R x s'.fs.ns s'.table result := by
      cases result with
      | ok u => exact ⟨L, hl⟩
      | error e =>
        cases e with
        | panic => exact trivial
        | errno e => exact Effect.rollback hs₀.wf hl.binds hl.refs s₄ rfl rfl
    refine ensures_inDir hok.fs (Ensures.mono hundo ?_)
    intro _ s₅ hend
    refine ensures_inDir hok.fs (Ensures.mono (Effect.readUnlock (n := n) s₅ rfl rfl) ?_)
    rintro _ s₆ ⟨hns₆, ht₆⟩
    refine ⟨x, hrep, ?_⟩
    rw [hns₆, ht₆]
    exact hend

end Emission

/-! ## Sinks -/

/-- The accepted entries of `readdir` other than dots. -/
def acceptedDir (sink : Sink DirEntry) (offered : List DirEntry) : List DirEntry :=
  (sink.accepted offered).filter fun e => ¬ e.name.isDots

/-- What the state of the sink of `readdir` stands for. -/
def dirRep (sink : Sink DirEntry) (offered : List DirEntry) (x : List Name × List NodeId) : Prop :=
  x = ((acceptedDir sink offered).map DirEntry.name, [])

/-- What the state of the sink of `readdirplus` stands for: the lookups that it retained are those
of the accepted entries. -/
def plusRep (sink : Sink PlusEntry) (acc : Accounting) (x : List Name × List NodeId) : Prop :=
  x = ((acceptedPlus sink acc.offered).map PlusEntry.name, acc.accepted) ∧ acc.Exact sink

/-- The sink of `readdir`. -/
lemma sinkOk_readdir (sink : Sink DirEntry)
    {h : (i : DirInstr (PathNodeFs.sig P) FileKind) → List DirEntry →
      RtProg (PathNodeFs.sig P) (i.Resp × List DirEntry)}
    (hfs : ∀ i acc, h (.fs i) acc = Runtime.sect (.fs i) >>= fun r => .ret (r, acc))
    (hadd : ∀ name id kind nextOffset offered, h (.add name id kind nextOffset) offered =
      .ret (sink offered ⟨name, id, kind, nextOffset⟩, offered ++
        [⟨name, id, kind, nextOffset⟩])) :
    SinkOk n h (dirRep sink) := by
  refine ⟨hfs, ?_⟩
  rintro s name id kind nextOffset offered _ rfl
  rw [hadd]
  refine ⟨rfl, _, rfl, ?_⟩
  change SinkStep name id ((acceptedDir sink offered).map DirEntry.name, [])
    (sink offered ⟨name, id, kind, nextOffset⟩)
    ((acceptedDir sink (offered ++ [⟨name, id, kind, nextOffset⟩])).map DirEntry.name, [])
    s.table s.table
  unfold acceptedDir
  rw [Sink.accepted_snoc, List.filter_append, List.map_append]
  cases sink offered ⟨name, id, kind, nextOffset⟩ with
  | false =>
    simp only [Bool.false_eq_true, if_false, List.filter_nil, List.map_nil, List.append_nil]
    exact .refused _ _
  | true =>
    by_cases hdots : name.isDots
    · simp only [if_true, hdots, List.filter_singleton, not_true, decide_false, Bool.cond_false,
        List.map_nil, List.append_nil]
      exact .dots hdots _ _
    · simp only [if_true, hdots, List.filter_singleton, not_false_eq_true, decide_true,
        Bool.cond_true, List.map_cons, List.map_nil]
      exact .listed hdots _ _ _

/-- The accounting sink of `readdirplus`. -/
lemma sinkOk_readdirplus (sink : Sink PlusEntry)
    {h : (i : DirInstr (PathNodeFs.sig P) NodeAttr) → Accounting →
      RtProg (PathNodeFs.sig P) (i.Resp × Accounting)}
    (hfs : ∀ i acc, h (.fs i) acc = Runtime.sect (.fs i) >>= fun r => .ret (r, acc))
    (hadd : ∀ name id attr nextOffset acc, h (.add name id attr nextOffset) acc =
      Accounting.add sink acc name id attr nextOffset) : SinkOk n h (plusRep sink) := by
  refine ⟨hfs, ?_⟩
  rintro s name id attr nextOffset acc _ ⟨rfl, hids⟩
  rw [hadd]
  refine Ensures.mono (ensures_add (pathNodeFs P) sink acc name id attr nextOffset s) ?_
  intro r s' hstep
  have hexact := hstep.exact hids
  cases hstep with
  | dead => exact ⟨rfl, _, ⟨rfl, hexact⟩, .refused _ _⟩
  | refused offered heq =>
    refine ⟨rfl, _, ⟨rfl, hexact⟩, ?_⟩
    rw [heq]
    exact .refused _ _
  | dots hdots offered heq =>
    refine ⟨rfl, _, ⟨rfl, hexact⟩, ?_⟩
    rw [heq]
    exact .dots hdots _ _
  | retained hdots e hname _ offered heq hfs _ hinc =>
    refine ⟨hfs, _, ⟨rfl, hexact⟩, ?_⟩
    rw [heq, List.map_append, List.map_singleton, hname]
    exact .retained hdots _ _ hinc

/-! ## Requests -/

section Requests

variable {ns₀ : Namespace} {t₀ : PathTable P} {this : NodeId} {R : List NodeId}

/-- What a listing leaves, with the leases `R` of the runtime still counted: the bindings and
lookups that its result stands for, or nothing. -/
def ListingLeaves (ns₀ : Namespace) (t₀ : PathTable P) (this : NodeId) (R : List NodeId)
    {α : Type} (stand : α → List Name × List NodeId) (r : Fallible α) (t : PathTable P)
    (ns : Namespace) : Prop :=
  match r with
  | .ok a => ∃ L, Listed ns₀ t₀ this R (stand a).1 (stand a).2 L ns t
  | .error (.errno _) => Namespace.Extends ns₀ ns [] ∧ Exceeds t₀ t (listingRefs [] [] R)
  | .error .panic => True

/-- Giving up the lease of the directory. -/
lemma ListingLeaves.dropNode {α : Type} {stand : α → List Name × List NodeId} {r : Fallible α}
    {t : PathTable P} {ns : Namespace} {sl : Slot (PathNodeFs.sig P).Node}
    (h : ListingLeaves ns₀ t₀ this [this] stand r t ns) (h₀ : t₀.WF)
    (hsl : t₀.slot this = some sl) :
    ListingLeaves ns₀ t₀ this [] stand r (t.dropRef ⟨this, sl.record⟩) ns := by
  have hdrop : ∀ {L A}, Exceeds t₀ t (listingRefs L A [this]) →
      Exceeds t₀ (t.dropRef ⟨this, sl.record⟩) (listingRefs L A []) := by
    intro L A hr
    exact (hr.congr fun c i => (bump_lease L A this c i).symm).dropRef h₀ hsl
  match r with
  | .ok a =>
    obtain ⟨L, hl⟩ := h
    exact ⟨L, hl.binds, hdrop hl.refs, hl.accepted, hl.new⟩
  | .error (.errno e) => exact ⟨h.1, hdrop h.2⟩
  | .error .panic => trivial

/-- Forgetting the retained lookups. -/
lemma leads_forgetAll (h₀ : t₀.WF) (A : List NodeId) (s : RtState (pathNodeFs P).toFsSig)
    (hr : Exceeds t₀ s.table (listingRefs [] A R)) :
    Leads (pathNodeFs P) n s (forgetAll A) fun _ t f =>
      f = s.fs ∧ Exceeds t₀ t (listingRefs [] [] R) := by
  induction A generalizing s with
  | nil => exact ⟨rfl, hr⟩
  | cons id A ih =>
    refine Ensures.step ?_
    intro ch _ s₁ he
    obtain ⟨_, rfl⟩ := Prod.mk.inj (Option.some.inj he)
    refine ih _ ?_
    exact (hr.congr fun c i => (bump_forget A R id c i).symm).decr h₀

/-- A listing within the scopes of its directory and its handle. -/
lemma leads_listing {α : Type} {stand : α → List Name × List NodeId} {ino fh : ℕ}
    {body : NodeRef (pathNodeFs P).Node → NodeId → (pathNodeFs P).Payload .dir →
      RtProg (pathNodeFs P).toFsSig (Fallible α)}
    {scope : NodeRef (pathNodeFs P).Node → Option NodeId →
      RtProg (pathNodeFs P).toFsSig (Fallible α)}
    (hnone : ∀ node, scope node none = .ret (fail .ENOENT))
    (hsome : ∀ node parent, scope node (some parent) = withHandle .dir ino fh (body node parent))
    (hbody : ∀ node parent handle s, s.fs.ns = ns₀ →
      Exceeds t₀ s.table (listingRefs [] [] [ino]) →
      Leads (pathNodeFs P) n s (body node parent handle) fun r t f =>
        ListingLeaves ns₀ t₀ ino [ino] stand r t f.ns)
    {s : RtState (pathNodeFs P).toFsSig} (h₀ : t₀.WF) (hns : s.fs.ns = ns₀)
    (ht : s.table = t₀) :
    Leads (pathNodeFs P) n s
      (withNode ino fun node => Runtime.sect (.parentOf ino) >>= scope node) fun r t f =>
         ListingLeaves ns₀ t₀ ino [] stand r t f.ns := by
  have hsame : Exceeds t₀ t₀ (listingRefs [] [] []) :=
    (Exceeds.refl h₀).congr fun c i => by cases c <;> rfl
  refine Leads.withNode ?_ ?_
  · intro _
    rw [ht, hns]
    exact ⟨.refl ns₀, hsame⟩
  · intro sl s₁ hsl hinc hfs
    rw [ht] at hsl hinc
    have hleased : Exceeds t₀ s₁.table (listingRefs [] [] [ino]) :=
      (hsame.incr h₀ hinc).congr (bump_lease [] [] ino)
    have hfail : ∀ e, ListingLeaves ns₀ t₀ ino [ino] stand (fail e) s₁.table
        s₁.fs.ns := by
      intro e
      rw [hfs, hns]
      exact ⟨.refl ns₀, hleased⟩
    have hscope : Leads (pathNodeFs P) n s₁
        (Runtime.sect (.parentOf ino) >>= scope ⟨ino, sl.record⟩) fun r t f =>
          ListingLeaves ns₀ t₀ ino [ino] stand r t f.ns := by
      refine Leads.inert (by trivial) ?_
      intro parent s₂ ht₂ hf₂
      rw [← ht₂, ← hf₂] at hfail
      rw [← ht₂] at hleased
      rw [← hf₂] at hfs
      cases parent with
      | none =>
        rw [hnone]
        exact hfail .ENOENT
      | some parent =>
        rw [hsome]
        refine Leads.withHandle (hfail .EBADF) ?_
        intro payload s₃ ht₃ hf₃
        refine hbody _ parent payload s₃ ?_ ?_
        · rw [hf₃, hfs, hns]
        · rw [ht₃]
          exact hleased
    refine Ensures.mono hscope ?_
    intro r s₂ h
    exact h.dropNode h₀ hsl

/-- What the result of `readdir` stands for. -/
def dirStand (sink : Sink DirEntry) (offered : List DirEntry) : List Name × List NodeId :=
  ((acceptedDir sink offered).map DirEntry.name, [])

/-- What the result of `readdirplus` stands for. -/
def plusStand (sink : Sink PlusEntry) (r : List NodeId × List PlusEntry) :
    List Name × List NodeId :=
  ((acceptedPlus sink r.2).map PlusEntry.name, (acceptedPlus sink r.2).map fun e => e.entry.ino)

/-- `Runtime::readdir` over the adapter. -/
lemma leads_readdir (hs₀ : Settled ns₀ t₀) (ino fh offset : ℕ) (sink : Sink DirEntry)
    (caller : Caller) {s : RtState (pathNodeFs P).toFsSig} (hns : s.fs.ns = ns₀)
    (ht : s.table = t₀) :
    Leads (pathNodeFs P) n s (Runtime.readdir (pathNodeFs P) ino fh offset sink caller)
      fun r t f => ListingLeaves ns₀ t₀ ino [] (dirStand sink) r t f.ns := by
  refine leads_listing (fun _ => rfl) (fun _ _ => rfl) ?_ hs₀.wf hns ht
  intro node parent handle s hns ht
  have hrep : dirRep sink [] ([], []) := rfl
  refine Ensures.bind (ensures_listDir ino parent
    (sinkOk_readdir sink (fun _ _ => rfl) fun _ _ _ _ _ => rfl) hs₀ node.record.payload
    (fun p _ _ => Effect.inner (.readdir p handle offset caller)) hrep hns ht) ?_
  rintro ⟨r, offered⟩ s' ⟨_, rfl, hend⟩
  match r with
  | .ok _ => exact hend
  | .error (.errno _) => exact hend
  | .error .panic => trivial

/-- `Runtime::readdirplus` over the adapter. -/
lemma leads_readdirplus (hs₀ : Settled ns₀ t₀) (ino fh offset : ℕ) (sink : Sink PlusEntry)
    (caller : Caller) {s : RtState (pathNodeFs P).toFsSig} (hns : s.fs.ns = ns₀)
    (ht : s.table = t₀) :
    Leads (pathNodeFs P) n s (Runtime.readdirplus (pathNodeFs P) ino fh offset sink caller)
      fun r t f => ListingLeaves ns₀ t₀ ino [] (plusStand sink) r t f.ns := by
  refine leads_listing (fun _ => rfl) (fun _ _ => rfl) ?_ hs₀.wf hns ht
  intro node parent handle s hns ht
  have hrep : plusRep sink {} ([], []) := ⟨rfl, rfl⟩
  refine Ensures.bind (ensures_listDir ino parent
    (sinkOk_readdirplus sink (fun _ _ => rfl) fun _ _ _ _ _ => rfl) hs₀ node.record.payload
    (fun p _ _ => Effect.inner (.readdirplus p handle offset caller)) hrep hns ht) ?_
  rintro ⟨r, acc⟩ s' ⟨_, ⟨rfl, hids⟩, hend⟩
  match r with
  | .ok _ =>
    obtain ⟨L, hl⟩ := hend
    exact ⟨L, hids ▸ hl⟩
  | .error (.errno _) =>
    refine Ensures.bind (leads_forgetAll hs₀.wf acc.accepted s' hend.2) ?_
    rintro _ s₁ ⟨hf, hr⟩
    refine ⟨?_, hr⟩
    rw [hf]
    exact hend.1
  | .error .panic =>
    refine Ensures.step ?_
    intro _ _ _ _
    trivial

end Requests

/-! ## Transactions -/

/-- The namespace and the inode table are what they were. -/
structure Restored (s s' : RtState (PathNodeFs.sig P)) : Prop where
  byName : s'.fs.ns.byName = s.fs.ns.byName
  aliases : s'.fs.ns.aliases = s.fs.ns.aliases
  slots : ∀ i, s'.table.slot i = s.table.slot i

/-- A listing of `this` has accepted entries with the names `names`, and retained the lookups
`ids`. -/
structure Grew (s s' : RtState (PathNodeFs.sig P)) (this : NodeId) (names : List Name)
    (ids : List NodeId) : Prop where
  /-- Names that were known keep their nodes. -/
  known : ∀ d i, s.fs.ns.find d = some i → s'.fs.ns.find d = some i
  /-- Exactly the accepted names that were not known are new. -/
  grew : ∀ d, s.fs.ns.find d = none →
    ((∃ i, s'.fs.ns.find d = some i) ↔ d.parent = this ∧ d.name ∈ names)
  /-- Each of them is bound to a new node with one link, whose only name it is. -/
  fresh : ∀ d i, s.fs.ns.find d = none → s'.fs.ns.find d = some i →
    s.table.slot i = none ∧ s'.table.count .links i = 1 ∧ s'.fs.ns.aliases.lookup i = some {d}
  /-- Other nodes keep their names. -/
  aliases : ∀ i, (∀ d, s.fs.ns.find d = none → s'.fs.ns.find d ≠ some i) →
    s'.fs.ns.aliases.lookup i = s.fs.ns.aliases.lookup i
  /-- The lookups are those that were retained. -/
  lookups : ∀ i, s'.table.count .lookups i = s.table.count .lookups i + ids.count i
  /-- A node that was live is the same node, and its other counters are as before. -/
  kept : ∀ i sl, s.table.slot i = some sl → ∃ sl', s'.table.slot i = some sl' ∧
    sl'.record = sl.record ∧ sl'.generation = sl.generation ∧ sl'.parent = sl.parent ∧
    sl'.links = sl.links ∧ sl'.opens = sl.opens ∧ sl'.leases = sl.leases

section Transactions

variable {s s' : RtState (PathNodeFs.sig P)} {this : NodeId} {names : List Name}
  {ids : List NodeId}

/-- A listing that has taken everything back. -/
lemma restored_of_taken (h₀ : s.table.WF) (hb : Namespace.Extends s.fs.ns s'.fs.ns [])
    (hr : Exceeds s.table s'.table (listingRefs [] [] [])) : Restored s s' where
  byName := hb.eq_of_nil.1
  aliases := hb.eq_of_nil.2
  slots := (hr.congr fun c i => by cases c <;> rfl).slot_eq h₀

/-- A listing that has kept what was accepted. -/
lemma grew_of_listed (h₀ : s.table.WF) {L : List (Dentry × NodeId)}
    (h : Listed s.fs.ns s.table this [] names ids L s'.fs.ns s'.table) :
    Grew s s' this names ids := by
  have hcount := h.refs.count
  have hbound : ∀ d i, s.fs.ns.find d = none → s'.fs.ns.find d = some i → (d, i) ∈ L := by
    intro d i hd hi
    rcases (h.binds.bound d i).mp hi with hi | hi
    · exact hi
    · rw [hd] at hi
      cases hi
  have hmem : ∀ {d i}, (d, i) ∈ L → i ∈ L.map Prod.snd :=
    fun hi => List.mem_map.mpr ⟨_, hi, rfl⟩
  have hlinks : ∀ d i, (d, i) ∈ L → s'.table.count .links i = 1 := by
    intro d i hi
    rw [hcount, count_of_dead (h.new i (hmem hi)), zero_add]
    exact List.count_eq_one_of_mem h.binds.nodes (hmem hi)
  refine ⟨?_, ?_, ?_, ?_, hcount .lookups, ?_⟩
  · exact fun d i hd => (h.binds.bound d i).mpr (Or.inr hd)
  · intro d hd
    constructor
    · rintro ⟨i, hi⟩
      have hd' := (h.accepted d).mp (List.mem_map.mpr ⟨_, hbound d i hd hi, rfl⟩)
      exact ⟨hd'.1, hd'.2.1⟩
    · rintro ⟨hp, hn⟩
      obtain ⟨⟨_, i⟩, hi, rfl⟩ := List.mem_map.mp ((h.accepted d).mpr ⟨hp, hn, hd⟩)
      exact ⟨i, (h.binds.bound _ i).mpr (Or.inl hi)⟩
  · intro d i hd hi
    have hL := hbound d i hd hi
    exact ⟨h.new i (hmem hL), hlinks d i hL, h.binds.named d i hL⟩
  · intro i hi
    refine h.binds.others i ?_
    intro hnode
    obtain ⟨⟨d, j⟩, hL, rfl⟩ := List.mem_map.mp hnode
    exact hi d (h.binds.free d j hL) ((h.binds.bound d j).mpr (Or.inl hL))
  · intro i sl hsl
    obtain ⟨sl', hsl'⟩ := h.refs.live h₀ hsl
    obtain ⟨hr, hg, hp⟩ := h.refs.kept i sl sl' hsl hsl'
    have hold : (L.map Prod.snd).count i = 0 := by
      refine List.count_eq_zero.mpr fun hL => ?_
      rw [h.new i hL] at hsl
      cases hsl
    have hcounter : ∀ c, sl'.counter c = sl.counter c + listingRefs L ids [] c i := by
      intro c
      rw [← count_of_slot hsl', ← count_of_slot hsl, hcount]
    refine ⟨sl', hsl', hr, hg, hp, ?_, hcounter .opens, hcounter .leases⟩
    exact (hcounter .links).trans (by rw [show listingRefs L ids [] .links i = 0 from hold]; rfl)

/-- What a listing did, by its result. -/
def ListingDid (s s' : RtState (PathNodeFs.sig P)) (this : NodeId) {α : Type}
    (stand : α → List Name × List NodeId) : Fallible α → Prop
  | .ok a => Grew s s' this (stand a).1 (stand a).2
  | .error (.errno _) => Restored s s'
  | .error .panic => True

/-- The answer to a listing that was served alone is its result, and says what it did. -/
lemma listingDid_of_serves {c c' : Config (service (pathNodeFs P))}
    (hs₀ : Settled c.state.fs.ns c.state.table) {α : Type}
    {stand : α → List Name × List NodeId} {p : RtProg (pathNodeFs P).toFsSig (Fallible α)}
    {reply : α → Reply} {req : Request} {a : Fallible Reply}
    (hreq : serve (pathNodeFs P) req = p >>= fun r => .ret (r.map reply))
    (hissue : Runtime.issue c.threads.length req c.state = c.state)
    (hp : Leads (pathNodeFs P) c.threads.length c.state p fun r t f =>
      ListingLeaves c.state.fs.ns c.state.table this [] stand r t f.ns)
    (h : Serves c req a c') :
    ∃ r : Fallible α, a = r.map reply ∧ ListingDid c.state c'.state this stand r := by
  obtain ⟨s, s', hs, hprog, rfl⟩ := h
  obtain rfl : c.state = s := hissue.symm.trans (Option.some.inj hs)
  have hserve : Alone (service (pathNodeFs P)) c.threads.length
      (p >>= fun r => .ret (r.map reply)) c.state a s' :=
    Eq.mp (congrArg (fun q => Alone (service (pathNodeFs P)) c.threads.length q c.state a s') hreq)
      hprog
  obtain ⟨r, s₁, hrun, hret⟩ := alone_bind.mp hserve
  have hleaves := alone_iff_wp.mp hp r s₁ hrun
  cases hret
  refine ⟨r, rfl, ?_⟩
  match r with
  | .ok a =>
    obtain ⟨L, hl⟩ := hleaves
    exact grew_of_listed hs₀.wf hl
  | .error (.errno _) => exact restored_of_taken hs₀.wf hleaves.1 hleaves.2
  | .error .panic => trivial

end Transactions

/-- A listing that is served alone in `c` and leaves `c'`: a failed one leaves nothing, and a
successful one what it has accepted. -/
structure Transactional (c c' : Config (service (pathNodeFs P))) : Prop where
  readdir : ∀ ino fh offset sink caller offered,
    Serves c (.readdir ino fh offset sink caller) (.ok (.listed offered)) c' →
    Grew c.state c'.state ino ((acceptedDir sink offered).map DirEntry.name) []
  readdir_failed : ∀ ino fh offset sink caller e,
    Serves c (.readdir ino fh offset sink caller) (fail e) c' → Restored c.state c'.state
  readdirplus : ∀ ino fh offset sink caller ids offered,
    Serves c (.readdirplus ino fh offset sink caller) (.ok (.retained ids offered)) c' →
    Grew c.state c'.state ino ((acceptedPlus sink offered).map PlusEntry.name)
      ((acceptedPlus sink offered).map fun e => e.entry.ino)
  readdirplus_failed : ∀ ino fh offset sink caller e,
    Serves c (.readdirplus ino fh offset sink caller) (fail e) c' → Restored c.state c'.state

/-- Every reachable state is one that a listing can start from. -/
lemma settled_of_run {c : Config (service (pathNodeFs P))}
    (hr : Run anyAction (start (pathNodeFs P)) c) : Settled c.state.fs.ns c.state.table := by
  obtain ⟨T, hinv⟩ := (holds_any hr).inv
  have hholds : (pathLogic P False).Holds c := path_holds (fun h => h.elim) hr
  obtain ⟨gs, _, hpath⟩ := hholds.tokens
  have hlinked := PathInv.linked hpath
  refine ⟨hinv.wf, ?_⟩
  intro i hi
  have hnames := (hlinked.of_unlinked (count_of_dead hi .links)).1
  unfold Namespace.names at hnames
  cases hlook : c.state.fs.ns.aliases.lookup i with
  | none => rfl
  | some names =>
    rw [hlook] at hnames
    exact absurd (hlook.trans (congrArg some hnames)) (hlinked.noEmpty i)

/-- Directory enumeration is a transaction, in every reachable state: whatever the inner filesystem
emits, and whatever the reply accepts of it, a listing that fails leaves the namespace and the
inode table as they were, and one that succeeds adds exactly the accepted names that were unknown
and the lookups of the accepted entries. -/
theorem listing_transactional {c : Config (service (pathNodeFs P))}
    (hr : Run anyAction (start (pathNodeFs P)) c) (c' : Config (service (pathNodeFs P))) :
    Transactional c c' := by
  have hs₀ := settled_of_run hr
  have hdir : ∀ ino fh offset sink caller a,
      Serves c (.readdir ino fh offset sink caller) a c' →
      ∃ r : Fallible (List DirEntry), a = r.map .listed ∧
        ListingDid c.state c'.state ino (dirStand sink) r := by
    intro ino fh offset sink caller a h
    exact listingDid_of_serves hs₀ rfl rfl
      (leads_readdir hs₀ ino fh offset sink caller rfl rfl) h
  have hplus : ∀ ino fh offset sink caller a,
      Serves c (.readdirplus ino fh offset sink caller) a c' →
      ∃ r : Fallible (List NodeId × List PlusEntry), a = r.map (fun l => .retained l.1 l.2) ∧
        ListingDid c.state c'.state ino (plusStand sink) r := by
    intro ino fh offset sink caller a h
    exact listingDid_of_serves hs₀ rfl rfl
      (leads_readdirplus hs₀ ino fh offset sink caller rfl rfl) h
  refine ⟨?_, ?_, ?_, ?_⟩
  · intro ino fh offset sink caller offered h
    obtain ⟨r, heq, hdid⟩ := hdir ino fh offset sink caller _ h
    match r with
    | .ok _ =>
      obtain rfl := Reply.listed.inj (Except.ok.inj heq)
      exact hdid
  · intro ino fh offset sink caller e h
    obtain ⟨r, heq, hdid⟩ := hdir ino fh offset sink caller _ h
    match r with
    | .error (.errno _) => exact hdid
  · intro ino fh offset sink caller ids offered h
    obtain ⟨r, heq, hdid⟩ := hplus ino fh offset sink caller _ h
    match r with
    | .ok (_, _) =>
      obtain ⟨_, rfl⟩ := Reply.retained.inj (Except.ok.inj heq)
      exact hdid
  · intro ino fh offset sink caller e h
    obtain ⟨r, heq, hdid⟩ := hplus ino fh offset sink caller _ h
    match r with
    | .error (.errno _) => exact hdid

/-- The root is opened for listing. -/
private def openedRoot : List (Action (service PathSample.fs)) :=
  PathSample.whole 0 9 (.openNode .dir NodeId.ROOT 0 {})

/-- A listing with a repeated name and a dot retains two lookups of one new node. -/
theorem listing_transactional_repeated : ∃ c c' : Config (service PathSample.fs), ∃ offered,
    Run anyAction (start PathSample.fs) c ∧
      Serves c (.readdirplus NodeId.ROOT 1 0 (fun _ _ => true) {})
        (.ok (.retained [2, 2] offered)) c' ∧ Transactional c c' := by
  have hr := PathSample.run_after PathSample.anyAction_of_check openedRoot (by decide +kernel)
  obtain ⟨c', h⟩ := PathSample.serves_of_listing
    (PathSample.after PathSample.anyCheck openedRoot)
    (.readdirplus NodeId.ROOT 1 0 (fun _ _ => true) {}) 80
    { names := [Name.dot, [97], [97]] }
    (.ok (.retained [2, 2] [⟨Name.dot, ⟨1, 0, {}⟩, 2⟩, ⟨[97], ⟨2, 0, {}⟩, 1⟩,
      ⟨[97], ⟨2, 0, {}⟩, 0⟩])) (by decide +kernel)
  exact ⟨_, c', _, hr, h, listing_transactional hr c'⟩

end TypedFuse
