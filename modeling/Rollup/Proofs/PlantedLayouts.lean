import Mathlib
import Rollup.Proofs.CreatedPaths

/-!
What building a layout does to any hierarchy. Its entries are created in turn, so the nodes come
under the next keys in layout order, each one at its path, and everything that was there before stays
as it was (`Planted`). Where an entry cannot be created, this is so of the entries before it.
-/
namespace Rollup

namespace Hierarchy

variable {cfg : Config} {h h' : Hierarchy cfg} {paths : List String} {ids : List NodeId}

/-- Nodes have come at these paths, with these ids and the next keys in turn, and nothing else has
    happened. -/
structure Planted (h : Hierarchy cfg) (paths : List String) (ids : List NodeId)
    (h' : Hierarchy cfg) : Prop extends Extended h h' where
  length : ids.length = paths.length
  nodup : ids.Nodup
  entries : ∀ i path id, paths[i]? = some path → ids[i]? = some id →
    h'.index[id]? = some (h.arena.size + i) ∧ h'.lookupId path = some id ∧
      h'.pathOf (h.arena.size + i) = path
  size : h'.index.size = h.index.size + paths.length
  keys : h'.arena.size = h.arena.size + paths.length
  stays : ∀ k < h.arena.size, h'.pathOf k = h.pathOf k
  elsewhere : ∀ q, (∀ path ∈ paths, Path.components q ≠ Path.components path) →
    h'.lookupId q = h.lookupId q

namespace Plants

theorem normal (planted : Plants h paths ids h') : ∀ path ∈ paths, Path.IsNormal path := by
  induction planted with
  | nil h => simp
  | cons creatable _ _ ih => exact List.forall_mem_cons.mpr ⟨creatable.normal, ih⟩

theorem length (planted : Plants h paths ids h') : ids.length = paths.length := by
  induction planted with
  | nil h => rfl
  | cons _ _ _ ih => exact congrArg (· + 1) ih

section
variable (planted : Plants h paths ids h') (charted : h.Charted)
include planted charted

theorem allocated : Allocated h ids h' := by
  induction planted with
  | nil h => exact .nil h
  | cons creatable free _ ih =>
    have place := creatable.place charted free
    exact .cons place free (ih (sprout_charted charted place))

theorem charted_after : h'.Charted := (planted.allocated charted).charted_after charted

theorem elsewhere {q : String}
    (other : ∀ path ∈ paths, Path.components q ≠ Path.components path) :
    h'.lookupId q = h.lookupId q := by
  induction planted with
  | nil h => rfl
  | cons creatable free _ ih =>
    obtain ⟨first, rest⟩ := List.forall_mem_cons.mp other
    rw [ih (sprout_charted charted (creatable.place charted free)) rest,
      creatable.lookup_id charted free, if_neg first]

theorem effect : h.Planted paths ids h' where
  toExtended := (planted.allocated charted).extended charted
  length := planted.length
  nodup := by
    rw [List.nodup_iff_getElem?_ne_getElem?]
    intro i j before inside same
    -- one id would stand for two keys
    have second := List.getElem?_eq_getElem inside
    have entry := (planted.allocated charted).entry charted second
    have left := (planted.allocated charted).entry charted (same.trans second)
    rw [entry] at left
    have keys := Option.some.inj left
    omega
  entries := by
    intro i path id listed named
    have found := (planted.allocated charted).entry charted named
    have leads : h'.lookupId path = some id := by
      have both := congrArg (·[i]?) (planted.lookups charted)
      simpa [listed, named] using both
    refine ⟨found, leads, ?_⟩
    have after := planted.charted_after charted
    obtain ⟨k, again, trail⟩ := after.lookup_id_iff.mp leads
    obtain rfl := Option.some.inj (found.symm.trans again)
    rw [after.path_of_trail (IdMap.mem_values.mpr ⟨id, found⟩), trail]
    exact planted.normal path (List.mem_of_getElem? listed)
  size := by rw [(planted.allocated charted).size charted, planted.length]
  keys := by rw [(planted.allocated charted).keys, planted.length]
  stays _ inside := ((planted.allocated charted).extended charted).path_of inside
  elsewhere _ other := planted.elsewhere charted other

end

end Plants

end Hierarchy

namespace Session

open Hierarchy

/-- A layout that is built adds its nodes and changes nothing else. One that fails its check changes
    nothing, and one that fails at an entry has added the nodes of the entries before it. -/
theorem built_layout_planted (cfg : Config) (steps : List Step) (layout : Layout) :
    let h := ((start cfg).run steps).hierarchy
    let h' := (layout.build h).1
    (∀ ids, (layout.build h).2 = .ok ids → h.Planted layout.nodes ids h') ∧
    ∀ fault, (layout.build h).2 = .error fault →
      layout.validate = .error fault ∧ h' = h ∨
      layout.validate = .ok () ∧ ∃ k path cause ids, layout.nodes[k]? = some path ∧
        h'.createPath path = (h', .error cause) ∧ fault = .path cause ∧
        h.Planted (layout.nodes.take k) ids h' := by
  intro h h'
  have charted : h.Charted := run_charted cfg steps
  cases valid : layout.validate with
  | error invalid =>
    have run : layout.build h = (h, .error invalid) := by simp only [Layout.build, valid]
    refine ⟨fun ids ok => ?_, fun fault failed => Or.inl ⟨?_, congrArg Prod.fst run⟩⟩
    · simp [run] at ok
    · rw [run, Except.error.injEq] at failed
      rw [failed]
  | ok _ =>
    obtain ⟨made, rest, ids, after, parted, planted, ends⟩ :=
      create_all_cases charted layout.nodes
    have effect := planted.effect charted
    rcases ends with ⟨rfl, all⟩ | ⟨path, later, cause, rfl, refused, all⟩
    · have run : layout.build h = (after, .ok ids) := by simp only [Layout.build, valid, all]
      have same : h' = after := congrArg Prod.fst run
      rw [List.append_nil] at parted
      refine ⟨fun others ok => ?_, fun fault failed => ?_⟩
      · rw [run, Except.ok.injEq] at ok
        rw [same, parted, ← ok]
        exact effect
      · simp [run] at failed
    · have run : layout.build h = (after, .error (.path cause)) := by
        simp only [Layout.build, valid, all]
      have same : h' = after := congrArg Prod.fst run
      refine ⟨fun others ok => ?_, fun fault failed => Or.inr ⟨rfl, ?_⟩⟩
      · simp [run] at ok
      · rw [run, Except.error.injEq] at failed
        refine ⟨made.length, path, cause, ids, by simp [parted], ?_, failed.symm, ?_⟩
        · rw [same]
          exact refused
        · rw [same, parted, List.take_left]
          exact effect

def lastIdSteps : List Step :=
  [.createWithId ⟨18446744073709551615⟩ NodeId.root "x", .add ⟨18446744073709551615⟩ ⟨0⟩ 5]

theorem built_layout_planted_at_the_brim :
    let h := ((start ⟨2⟩).run lastIdSteps).hierarchy
    h.Planted ["/c", "/c/d", "/e"] [⟨0⟩, ⟨2⟩, ⟨3⟩]
        ((Layout.mk ["/c", "/c/d", "/e"]).build h).1 ∧
      ∃ k path cause ids, ["/c", "/c/d", "/x", "/e"][k]? = some path ∧
        (((Layout.mk ["/c", "/c/d", "/x", "/e"]).build h).1.createPath path).2 = .error cause ∧
        h.Planted (["/c", "/c/d", "/x", "/e"].take k) ids
          ((Layout.mk ["/c", "/c/d", "/x", "/e"]).build h).1 := by
  intro h
  obtain ⟨whole, _⟩ := built_layout_planted ⟨2⟩ lastIdSteps ⟨["/c", "/c/d", "/e"]⟩
  obtain ⟨_, part⟩ := built_layout_planted ⟨2⟩ lastIdSteps ⟨["/c", "/c/d", "/x", "/e"]⟩
  refine ⟨whole _ (by decide +kernel), ?_⟩
  rcases part (.path (.node (.alreadyExists ⟨18446744073709551615⟩))) (by decide +kernel) with
    ⟨invalid, _⟩ | ⟨_, k, path, cause, ids, listed, refused, _, planted⟩
  · exact absurd invalid (by decide +kernel)
  · exact ⟨k, path, cause, ids, listed, congrArg Prod.snd refused, planted⟩

end Session

end Rollup
