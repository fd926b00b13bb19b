import Mathlib
import Rollup.Proofs.AnyFlush
import Rollup.Proofs.References

/-!
Drains of the update lists by somebody other than a flush, in whole, in part or around a mark. A
drain with nothing in hand passes the empty lists ahead and takes the first that has an entry (`Opens`).
It keeps alive what it has taken and not yet yielded; `Draining` says what holds between two of its
entries, for any property that taking lists keeps.
-/
namespace Rollup

namespace Drain

open Hierarchy

variable {cfg : Config}

structure Opens (h after : Hierarchy cfg) (ahead empty : List (Fin cfg.slots)) (c : Fin cfg.slots)
    (rest : List (Fin cfg.slots)) (k : Nat) (ks : List Nat) : Prop where
  parted : ahead = empty ++ c :: rest
  run : reach h ahead = (some k, ⟨ks, rest⟩, { after with holds := ks ++ after.holds })
  taken : Taken h after (empty ++ [c]) (k :: ks)
  none : ∀ d ∈ empty, h.queues[d].values = []
  full : h.queues[c].values = k :: ks

theorem Opens.mem_ahead {h after : Hierarchy cfg} {ahead empty rest : List (Fin cfg.slots)}
    {c d : Fin cfg.slots} {k : Nat} {ks : List Nat} (opens : Opens h after ahead empty c rest k ks)
    (member : d ∈ empty ++ [c]) : d ∈ ahead := by
  rw [opens.parted, List.append_cons]
  exact List.mem_append_left rest member

/-- Either every list ahead is empty, or the first that is not is taken. -/
theorem reach_takes {h : Hierarchy cfg} (filed : h.Filed) {ahead : List (Fin cfg.slots)}
    (nodup : ahead.Nodup) :
    (∃ after, reach h ahead = (none, ⟨[], []⟩, after) ∧ Taken h after ahead [] ∧
      ∀ c ∈ ahead, h.queues[c].values = []) ∨
    ∃ after empty c rest k ks, Opens h after ahead empty c rest k ks := by
  induction ahead generalizing h with
  | nil => exact Or.inl ⟨h, rfl, Taken.none h, by simp⟩
  | cons c cs ih =>
    obtain ⟨fresh, nodup_cs⟩ := List.nodup_cons.mp nodup
    have taken := (take_queue filed c).1
    have apart {ds : List (Fin cfg.slots)} (within : ∀ d ∈ ds, d ∈ cs) : ∀ d ∈ ds, d ∉ [c] := by
      intro d member same
      exact fresh (List.mem_singleton.mp same ▸ within d member)
    cases run : h.takeQueue c with
    | mk ks next =>
      rw [run] at taken
      have values : h.queues[c].values = ks := congrArg Prod.fst run
      have kept {d : Fin cfg.slots} (member : d ∈ cs) : next.queues[d] = h.queues[d] := by
        rw [taken.queues, if_neg (apart (fun _ => id) d member)]
      cases ks with
      | cons k ks =>
        refine Or.inr ⟨next, [], c, cs, k, ks, rfl, ?_, taken, by simp, values⟩
        simp only [reach, run]
      | nil =>
        -- an empty list is passed, and the lists behind it are as they were
        have same : reach h (c :: cs) = reach next cs := by simp only [reach, run]
        have passed {ds : List (Fin cfg.slots)} (within : ∀ d ∈ ds, d ∈ cs)
            (empty : ∀ d ∈ ds, next.queues[d].values = []) :
            ∀ d ∈ c :: ds, h.queues[d].values = [] := by
          intro d member
          rcases List.mem_cons.mp member with rfl | behind
          · exact values
          · exact kept (within d behind) ▸ empty d behind
        rw [same]
        rcases ih (filed.taken taken) nodup_cs with
          ⟨after, stop, later, empty⟩ | ⟨after, empty, d, rest, k, ks, opens⟩
        · exact Or.inl ⟨after, stop, taken.trans (apart fun _ => id) later, passed (fun _ => id) empty⟩
        · have within (e : Fin cfg.slots) : e ∈ empty ++ [d] → e ∈ cs := opens.mem_ahead
          refine Or.inr ⟨after, c :: empty, d, rest, k, ks, ?_, same.trans opens.run,
            taken.trans (apart within) opens.taken, ?_, ?_⟩
          · rw [opens.parted]
            rfl
          · exact passed (fun e member => within e (by simp [member])) opens.none
          · exact kept (within d (by simp)) ▸ opens.full

end Drain

namespace Hierarchy

variable {cfg : Config} {h h' b : Hierarchy cfg} {K : Hierarchy cfg → Prop}

structure Draining (K : Hierarchy cfg → Prop) (b : Hierarchy cfg) (d : Drain cfg)
    (h : Hierarchy cfg) : Prop extends SameShape b h, SameCounts b h where
  kept : K h
  alive : ∀ k, h.isAlive k = true → b.isAlive k = true
  holds : h.holds.Perm (d.taken ++ b.holds)
  ahead : d.ahead.Nodup

namespace Draining

variable {d : Drain cfg}

theorem start (kept : K h) : Draining K h (Drain.start cfg) h where
  toSameShape := SameShape.refl h
  toSameCounts := SameCounts.of_arena rfl
  kept := kept
  alive _ alive := alive
  holds := List.Perm.refl _
  ahead := List.nodup_finRange _

theorem fades (draining : Draining K b d h) : Fades b h :=
  ⟨draining.size, draining.identity, draining.alive⟩

theorem mark (draining : Draining K b d h) {k : Nat} (alive : h.isAlive k = true) {cpu : Cpu}
    (kept : K (h.mark k cpu)) : Draining K b d (h.mark k cpu) := by
  have only := only_lists_mark h k cpu
  exact {
    toSameShape := draining.toSameShape.trans only.toSameShape
    toSameCounts := draining.toSameCounts.trans only.toSameCounts
    kept := kept
    alive := (draining.fades.trans (Fades.mark alive cpu)).alive
    holds := only.holds ▸ draining.holds
    ahead := draining.ahead }

theorem held (draining : Draining K b d h) {k : Nat} (held : k ∈ b.holds) : h.isAlive k = true :=
  alive_of_held (draining.holds.mem_iff.mpr (List.mem_append_right _ held))

section
variable (taking : Taking K)
include taking

theorem change {e : Drain cfg} {cs : List (Fin cfg.slots)} {ks holds : List Nat}
    (draining : Draining K b d h) (taken : Taken h h' cs ks)
    (held : ∀ k ∈ holds, h.isAlive k = true) (perm : holds.Perm (e.taken ++ b.holds))
    (ahead : e.ahead.Nodup) : Draining K b e { h' with holds := holds } where
  toSameShape := draining.toSameShape.trans
    ⟨taken.size, taken.index, taken.identity, taken.removed, taken.children⟩
  toSameCounts := draining.toSameCounts.trans
    ⟨taken.counter, taken.total, taken.pending, taken.inherited⟩
  kept := taking.take draining.kept taken held
  alive := (draining.fades.trans (Fades.taken_holding taken held)).alive
  holds := perm
  ahead := ahead

theorem release {k : Nat} {ks : List Nat} (draining : Draining K b d h)
    (taken : d.taken = k :: ks) : Draining K b { d with taken := ks } (h.release k) := by
  have perm := draining.holds
  rw [taken] at perm
  exact draining.change taking (Taken.none h)
    (fun _ member => alive_of_held (List.mem_of_mem_erase member))
    (Session.erase_perm perm) draining.ahead

theorem reach (draining : Draining K b ⟨[], d.ahead⟩ h) :
    Draining K b (Drain.reach h d.ahead).2.1 (Drain.reach h d.ahead).2.2 := by
  have old (k : Nat) (member : k ∈ h.holds) : h.isAlive k = true := alive_of_held member
  rcases Drain.reach_takes (taking.filed draining.kept) draining.ahead with
    ⟨after, stop, taken, _⟩ | ⟨after, empty, c, rest, k, ks, opens⟩
  · have passed : Draining K b ⟨[], []⟩ { after with holds := h.holds } :=
      draining.change taking taken old draining.holds List.nodup_nil
    rw [← taken.holds] at passed
    rw [stop]
    exact passed
  · have listed (j : Nat) (member : j ∈ ks) : h.isAlive j = true := by
      obtain ⟨e, _, listed⟩ := (opens.taken.yields j).mp (by simp [member])
      exact alive_of_lists listed
    have ahead : (empty ++ c :: rest).Nodup := opens.parted ▸ draining.ahead
    rw [opens.run]
    refine draining.change taking opens.taken (fun j member => ?_) ?_
      ahead.of_append_right.of_cons
    · cases List.mem_append.mp member with
      | inl new => exact listed j new
      | inr held => exact old j (opens.taken.holds ▸ held)
    · have perm : after.holds.Perm b.holds := opens.taken.holds ▸ draining.holds
      exact perm.append_left ks

theorem next (draining : Draining K b d h) :
    Draining K b (d.next h).2.1 (d.next h).2.2 := by
  unfold Drain.next
  split
  · rename_i k ks taken
    exact draining.release taking taken
  · rename_i none
    have same : (⟨[], d.ahead⟩ : Drain cfg) = d := by rw [← none]
    exact reach taking (same ▸ draining)

theorem take (draining : Draining K b d h) (count : Nat) :
    Draining K b (d.take h count).2.1 (d.take h count).2.2 := by
  induction count generalizing d h with
  | zero => exact draining
  | succ count ih =>
    have next := draining.next taking
    unfold Drain.take
    split <;> rename_i run <;> rw [run] at next
    · exact next
    · exact ih next

theorem stop (draining : Draining K b d h) : Draining K b ⟨[], d.ahead⟩ (d.stop h) := by
  obtain ⟨ks, cs⟩ := d
  unfold Drain.stop
  induction ks generalizing h with
  | nil => exact draining
  | cons k ks ih => exact ih (draining.release taking rfl)

theorem rest (draining : Draining K b d h) : Draining K b ⟨[], []⟩ (d.rest h).2 := by
  have stopped := draining.stop taking
  have taken := take_queues (taking.filed stopped.kept) draining.ahead
  have result : Draining K b ⟨[], []⟩
      { ((d.stop h).takeQueues d.ahead).2 with holds := (d.stop h).holds } :=
    stopped.change taking taken (fun _ member => alive_of_held member) stopped.holds
      List.nodup_nil
  rw [← taken.holds] at result
  exact result

end

end Draining

end Hierarchy

end Rollup
