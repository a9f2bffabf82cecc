import TypedFuse.Conc.Trace
import TypedFuse.Core.Reclaim
import TypedFuse.Core.Sample

/-!
# An open handle keeps its node

Numbers of handles are never reused, so a handle that is registered now and later was registered all
the time in between.  All that time the `opens` counter of its inode was positive, so the inode
belonged to the same node: unlinking it, forgetting it and closing other handles does not reclaim
it.
-/

namespace TypedFuse

open Conc Conc.Service NodeTable TypedFuse.Runtime

variable {fs : NodeFs}

/-- The handle with this number is registered, for this inode. -/
def RegisteredFor (s : RtState fs.toFsSig) (k : HandleKind) (fh ino : ℕ) : Prop :=
  ∃ arc, (s.handles.table k).lookup fh = some arc ∧ arc.node = ino

section Section

variable {s s' : RtState fs.toFsSig} {n : ℕ} {i : RtInstr fs.toFsSig} {ch : Option fs.Choice}
  {r : i.Resp} {k : HandleKind} {fh ino : ℕ}

/-- A handle that is registered after a section has the next number or was registered before it. -/
lemma registeredFor_exec (he : (service fs).exec n i ch s = some (r, s')) :
    s.handles.nextFh ≤ s'.handles.nextFh ∧
      (RegisteredFor s' k fh ino → fh = s.handles.nextFh ∨ RegisteredFor s k fh ino) := by
  by_cases hadd : ∃ k' node payload, i = .addHandle k' node payload
  · obtain ⟨k', node, payload, rfl⟩ := hadd
    obtain ⟨⟨fh', hs⟩, hadd, heq⟩ := Option.map_eq_some_iff.mp he
    obtain ⟨_, rfl⟩ := Prod.mk.inj heq
    unfold Handles.add at hadd
    split at hadd
    · obtain ⟨_, rfl⟩ := Prod.mk.inj (Option.some.inj hadd)
      refine ⟨Nat.le_succ _, ?_⟩
      rintro ⟨arc, harc, hnode⟩
      by_cases hfh : fh = s.handles.nextFh
      · exact Or.inl hfh
      · refine Or.inr ⟨arc, ?_, hnode⟩
        change (Function.update s.handles.table k' _ k).lookup fh = some arc at harc
        by_cases hk : k = k'
        · subst hk
          rwa [Function.update_self, BTreeMap.lookup_insert_ite, if_neg hfh] at harc
        · rwa [Function.update_of_ne hk] at harc
    · cases hadd
  · by_cases hremove : ∃ k' ino' fh', i = .removeHandle k' ino' fh'
    · obtain ⟨k', ino', fh', rfl⟩ := hremove
      obtain ⟨_, rfl⟩ := Prod.mk.inj (Option.some.inj he)
      unfold RegisteredFor Handles.remove
      split
      · exact ⟨le_rfl, Or.inr⟩
      · split
        · refine ⟨le_rfl, ?_⟩
          rintro ⟨arc, harc, hnode⟩
          refine Or.inr ⟨arc, ?_, hnode⟩
          change (Function.update s.handles.table k' _ k).lookup fh = some arc at harc
          by_cases hk : k = k'
          · subst hk
            rw [Function.update_self, BTreeMap.lookup_erase_ite] at harc
            split at harc
            · cases harc
            · exact harc
          · rwa [Function.update_of_ne hk] at harc
        · exact ⟨le_rfl, Or.inr⟩
    · have hsame := sameTable_exec (fun k node payload h => hadd ⟨k, node, payload, h⟩)
        (fun k ino fh h => hremove ⟨k, ino, fh, h⟩) he
      refine ⟨hsame.nextFh.ge, ?_⟩
      rintro ⟨arc, harc, hnode⟩
      rw [hsame.table] at harc
      exact Or.inr ⟨arc, harc, hnode⟩

end Section

section Run

variable {c c' : Config (service fs)} {k : HandleKind} {fh ino : ℕ}

/-- A registered number has been issued. -/
lemma RegisteredFor.lt (hr : Run anyAction (start fs) c) (h : RegisteredFor c.state k fh ino) :
    fh < c.state.handles.nextFh := by
  obtain ⟨arc, harc, _⟩ := h
  obtain ⟨_, hinv⟩ := (holds_any hr).inv
  obtain ⟨cell, hcell, _⟩ := hinv.handles.cell_of_table harc
  exact hinv.handles.fresh_lt hcell

/-- The inode of a registered handle is live. -/
lemma RegisteredFor.live (hr : Run anyAction (start fs) c) (h : RegisteredFor c.state k fh ino) :
    ∃ sl, c.state.table.slot ino = some sl := by
  obtain ⟨arc, harc, rfl⟩ := h
  obtain ⟨_, hinv⟩ := (holds_any hr).inv
  refine slot_of_count_pos (c := .opens) ?_
  rw [hinv.opens.count]
  have hpos : 0 < (c.state.handles.table k).countWhere fun _ a => a.node = arc.node :=
    BTreeMap.countWhere_pos harc (decide_eq_true rfl)
  unfold Handles.registered
  cases k with
  | file => omega
  | dir => omega

/-- Likewise after any action. -/
lemma registeredFor_next (k : HandleKind) (fh ino : ℕ) {a : Action (service fs)}
    (hn : c.next a = some c') : c.state.handles.nextFh ≤ c'.state.handles.nextFh ∧
      (RegisteredFor c'.state k fh ino →
        fh = c.state.handles.nextFh ∨ RegisteredFor c.state k fh ino) := by
  cases a with
  | issue req =>
    obtain ⟨s, hs, rfl⟩ := next_issue hn
    obtain rfl := Option.some.inj hs
    cases req <;> exact ⟨le_rfl, Or.inr⟩
  | step n ch =>
    obtain ⟨id, req, i, kont, r, s, ht, he, rfl⟩ := next_step hn
    exact registeredFor_exec he
  | answer n =>
    obtain ⟨id, req, a, ht, rfl⟩ := next_answer hn
    exact ⟨le_rfl, Or.inr⟩

lemma nextFh_mono (hr : Run anyAction c c') :
    c.state.handles.nextFh ≤ c'.state.handles.nextFh := by
  induction hr with
  | refl => exact le_rfl
  | tail a _ _ hn ih =>
    exact ih.trans (registeredFor_next .file 0 0 hn).1

/-- A handle that is registered after a run and whose number was issued before it was registered all
the time, so its inode was live all the time. -/
lemma RegisteredFor.before {es : List (Event (service fs))} (hr : Run anyAction (start fs) c)
    (h' : Traced anyAction c c' es) (hlt : fh < c.state.handles.nextFh)
    (h : RegisteredFor c'.state k fh ino) :
    RegisteredFor c.state k fh ino ∧ Traced (StaysLive ino) c c' es := by
  have hback : ∀ {c₁ c₂ : Config (service fs)} {a : Action (service fs)}
      {es₁ : List (Event (service fs))}, Traced anyAction c c₁ es₁ →
      c₁.next a = some c₂ →
      RegisteredFor c₂.state k fh ino →
      RegisteredFor c₁.state k fh ino ∧ StaysLive ino c₁ a := by
    intro c₁ c₂ a es₁ htr hn hreg
    have hlive := hreg.live ((hr.trans htr.run).tail a trivial hn)
    have hlt₁ := hlt.trans_le (nextFh_mono htr.run)
    refine ⟨((registeredFor_next k fh ino hn).2 hreg).resolve_left hlt₁.ne, ?_⟩
    intro c₃ hc₃
    obtain rfl := Option.some.inj (hn.symm.trans hc₃)
    exact hlive
  induction h' with
  | refl => exact ⟨h, .refl⟩
  | issue req htr _ hn ih =>
    obtain ⟨hreg, ha⟩ := hback htr hn h
    exact ⟨(ih hreg).1, .issue req (ih hreg).2 ha hn⟩
  | step ch htr _ ht he ih =>
    obtain ⟨hreg, ha⟩ := hback htr (next_of_exec ht he) h
    exact ⟨(ih hreg).1, .step ch (ih hreg).2 ha ht he⟩
  | answer n htr _ hn ih =>
    obtain ⟨hreg, ha⟩ := hback htr hn h
    exact ⟨(ih hreg).1, .answer n (ih hreg).2 ha hn⟩

end Run

/-- An open handle keeps its node: as long as a handle stays registered, its inode belongs to the
same node, with the same generation, whatever other requests do. -/
theorem handle_pins {c c' : Config (service fs)} {k : HandleKind} {fh ino ino' : ℕ}
    (hr : Run anyAction (start fs) c) (hr' : Run anyAction c c')
    (h : RegisteredFor c.state k fh ino) (h' : RegisteredFor c'.state k fh ino') :
    ino' = ino ∧ ∃ sl sl', c.state.table.slot ino = some sl ∧
      c'.state.table.slot ino = some sl' ∧
      sl'.record = sl.record ∧ sl'.generation = sl.generation := by
  obtain ⟨es, htr⟩ := hr'.traced
  obtain ⟨⟨arc, harc, hnode⟩, hlive⟩ := h'.before hr htr (h.lt hr)
  obtain ⟨arc', harc', hnode'⟩ := h
  obtain rfl := Option.some.inj (harc'.symm.trans harc)
  obtain rfl : ino' = ino := hnode.symm.trans hnode'
  obtain ⟨sl, hsl⟩ := RegisteredFor.live hr ⟨_, harc, hnode⟩
  obtain ⟨sl', hsl', hrec, hgen⟩ := same_node hr hsl hlive.run
  exact ⟨rfl, sl, sl', hsl, hsl', hrec, hgen⟩

/-- A file is looked up and opened. -/
private def openingFile : List (Action (service Sample.fs)) :=
  [.issue (.lookup NodeId.ROOT [97] {})] ++ Sample.steps 0 5 ++ [.answer 0] ++
    [.issue (.openNode .file (2 : ℕ) 0 {})] ++ Sample.steps 1 4 ++ [.answer 1]

/-- It is unlinked and forgotten. -/
private def unlinkingFile : List (Action (service Sample.fs)) :=
  [.issue (.treeOp (.unlink NodeId.ROOT [97]) {})] ++ Sample.steps 2 1 ++ [.answer 2] ++
    [.issue (.forget 2 1)] ++ Sample.steps 3 1 ++ [.answer 3]

/-- The open file has no links and no lookups left and is still the same node. -/
theorem handle_pins_unlinked : ∃ c c' : Config (service Sample.fs),
    Run anyAction (start Sample.fs) c ∧ Run anyAction c c' ∧
      c'.state.table.count .links (2 : ℕ) = 0 ∧ c'.state.table.count .lookups (2 : ℕ) = 0 ∧
      ∃ sl sl', c.state.table.slot (2 : ℕ) = some sl ∧
        c'.state.table.slot (2 : ℕ) = some sl' ∧
        sl'.record = sl.record ∧ sl'.generation = sl.generation := by
  have hr : Run anyAction (start Sample.fs) (Sample.after Sample.anyCheck openingFile) :=
    run_of_runs Sample.anyAction_of_check
      (show (start Sample.fs).runs Sample.anyCheck openingFile = some _ from rfl)
  have hr' : Run anyAction (Sample.after Sample.anyCheck openingFile)
      (Sample.after Sample.anyCheck (openingFile ++ unlinkingFile)) :=
    run_of_runs Sample.anyAction_of_check
      (show (Sample.after Sample.anyCheck openingFile).runs Sample.anyCheck unlinkingFile = some _
        from rfl)
  have h : RegisteredFor (Sample.after Sample.anyCheck openingFile).state .file 1 (2 : ℕ) :=
    ⟨⟨1, (2 : ℕ)⟩, by decide, rfl⟩
  have h' : RegisteredFor (Sample.after Sample.anyCheck (openingFile ++ unlinkingFile)).state .file
      1 (2 : ℕ) := ⟨⟨1, (2 : ℕ)⟩, by decide, rfl⟩
  exact ⟨_, _, hr, hr', by decide, by decide, (handle_pins hr hr' h h').2⟩

end TypedFuse
