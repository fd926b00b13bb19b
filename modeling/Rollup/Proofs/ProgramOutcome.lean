import Mathlib
import Rollup.Program
import Rollup.Proofs.DumpLines
import Rollup.Proofs.ExportedTrees
import Rollup.Proofs.FreshLayouts

/-!
What a whole run of the program comes to, stage by stage: the layout built, the leaves counted and
flushed, the dump, the check and the document. `Presented` is what all stages up to the writing of
the document leave. A layout that cannot be read or built ends a run early, and nothing else does.
-/
namespace Rollup

namespace Record

def ofCount (c : Nat × Nat) : Record := ⟨⟨UInt64.ofNat c.1⟩, UInt64.ofNat c.2⟩

def line (c : Nat × Nat) : String :=
  "id: " ++ Decimal.text c.1 ++ ", counter: " ++ Decimal.text c.2 ++ "\n"

theorem line_of_count {c : Nat × Nat} (first : c.1 < UInt64.size) (second : c.2 < UInt64.size) :
    (ofCount c).text ++ "\n" = line c := by
  rw [← String.toList_inj]
  simp [text, chars, ofCount, line, idField, counterField, Decimal.text,
    UInt64.toNat_ofNat_of_lt' first, UInt64.toNat_ofNat_of_lt' second]

end Record

namespace Json

def records? : Json → Option (List Record)
  | .object members => do
    let fields ← fields? members
    match ← field? fields "nodes" with
    | .array items => items.mapM Record.ofJson?
    | _ => none
  | _ => none

theorem records_of_document {cfg : Config} (h : Hierarchy cfg) :
    records? (Export.document h) = some (h.snapshot.map NodeView.record) := by
  simp only [Export.document, ofFields, records?]
  rw [fields_of_plain Export.document_plain]
  simp [field?, map_decoded NodeView.record_to_json]

end Json

namespace Hierarchy

variable {cfg : Config} {h after : Hierarchy cfg} {l : Layout} {ids : List NodeId}

theorem ids_of_counts (perLeaf : Nat) : (l.counts perLeaf).map (fun c => (Record.ofCount c).id) =
    NodeId.root :: (List.range' 2 l.nodes.length).map fun i => ⟨UInt64.ofNat i⟩ := by
  rw [Layout.counts, List.map_cons]
  congr 1
  apply List.ext_getElem
  · simp
  · intro i _ _
    simp [Record.ofCount, Nat.add_comm]

theorem rising_numbers (start count : Nat) (few : start + count ≤ UInt64.size) :
    IdMap.Rising ((List.range' start count).map fun i => ⟨UInt64.ofNat i⟩) := by
  have ordered : (List.range' start count).Pairwise fun i j => i < j := List.pairwise_lt_range'
  refine List.pairwise_map.mpr (ordered.imp_of_mem ?_)
  intro i j first second less
  have low := List.mem_range'_1.mp first
  have high := List.mem_range'_1.mp second
  rw [UInt64.lt_iff_toNat_lt, UInt64.toNat_ofNat_of_lt' (by omega),
    UInt64.toNat_ofNat_of_lt' (by omega)]
  exact less

theorem counts_fit {perLeaf : Nat} (few : l.nodes.length + 1 < UInt64.size)
    (fits : perLeaf * l.leaves.length < UInt64.size) {c : Nat × Nat}
    (member : c ∈ l.counts perLeaf) : c.1 < UInt64.size ∧ c.2 < UInt64.size := by
  rcases List.mem_cons.mp member with rfl | below
  · have one : 1 < UInt64.size := by decide
    exact ⟨one, fits⟩
  · obtain ⟨i, inside, rfl⟩ := List.mem_mapIdx.mp below
    have part : perLeaf * (l.leavesWithin l.nodes[i]).length ≤ perLeaf * l.leaves.length :=
      Nat.mul_le_mul_left _ (List.length_filter_le _ _)
    exact ⟨by omega, by omega⟩

theorem records_unique {first second : List Record}
    (left : ∀ r ∈ first, h.read r.id = .ok r) (right : ∀ r ∈ second, h.read r.id = .ok r)
    (same : first.map Record.id = second.map Record.id) : first = second := by
  have known (rs : List Record) (all : ∀ r ∈ rs, h.read r.id = .ok r) :
      rs.map Except.ok = (rs.map Record.id).map h.read := by
    rw [List.map_map]
    exact List.map_congr_left fun r member => (all r member).symm
  have equal := (known first left).trans
    ((congrArg (List.map h.read) same).trans (known second right).symm)
  exact List.map_injective_iff.mpr (fun _ _ => Except.ok.inj) equal

namespace Fresh

variable (fresh : h.Fresh l ids) {perLeaf : Nat}
include fresh

theorem reads (shape : SameShape h after) (root : after.total rootKey = perLeaf * l.leaves.length)
    (entries : ∀ path ∈ l.nodes, ∀ k ∈ h.keys, h.trail k = Path.components path →
      after.total k = perLeaf * (l.leavesWithin path).length) :
    ∀ r ∈ (l.counts perLeaf).map Record.ofCount, after.read r.id = .ok r := by
  have word (k : Nat) : (after.node k).total = UInt64.ofNat (after.total k) :=
    (UInt64.ofNat_toNat).symm
  intro r member
  obtain ⟨c, counted, rfl⟩ := List.mem_map.mp member
  rcases List.mem_cons.mp counted with rfl | below
  · have entry : after.index[NodeId.root]? = some rootKey := by
      rw [shape.index]
      exact fresh.grown.charted.one_tree.rooted.1
    have value := read_entry entry
    rw [word, root] at value
    exact value
  · obtain ⟨i, inside, rfl⟩ := List.mem_mapIdx.mp below
    have listed : l.nodes[i] ∈ l.nodes := List.getElem_mem inside
    obtain ⟨k, among, found, trail⟩ := fresh.grown.leads listed
    have id : h.lookupId l.nodes[i] = some ⟨UInt64.ofNat (i + 2)⟩ := by
      have place : ids[i]? = some ⟨UInt64.ofNat (i + 2)⟩ := by
        rw [fresh.numbered, List.getElem?_map, List.getElem?_range' inside]
        simp [Nat.add_comm]
      have at_i : (l.nodes.map h.lookupId)[i]? = (ids.map some)[i]? := by rw [fresh.found]
      rw [List.getElem?_map, List.getElem?_map, place, List.getElem?_eq_getElem inside] at at_i
      exact Option.some.inj at_i
    have entry : after.index[(⟨UInt64.ofNat (i + 2)⟩ : NodeId)]? = some k := by
      rw [shape.index]
      rw [lookupId, found, Option.map_some, Option.some.injEq] at id
      rw [← id]
      exact fresh.grown.charted.entry among
    have value := read_entry entry
    rw [word, entries _ listed k among trail] at value
    exact value

theorem snapshot_records (shape : SameShape h after) (charted : after.Charted)
    (few : l.nodes.length + 1 < UInt64.size)
    (reads : ∀ r ∈ (l.counts perLeaf).map Record.ofCount, after.read r.id = .ok r) :
    after.snapshot.map NodeView.record = (l.counts perLeaf).map Record.ofCount := by
  refine records_unique (h := after) ?_ reads ?_
  · intro r member
    obtain ⟨v, shown, rfl⟩ := List.mem_map.mp member
    obtain ⟨k, among, rfl⟩ := List.mem_map.mp shown
    exact read_entry (charted.entry among)
  · rw [List.map_map, List.map_map]
    change after.snapshot.map NodeView.id = (l.counts perLeaf).map fun c => (Record.ofCount c).id
    rw [ids_of_counts, charted.snapshot_ids, shape.index, ← fresh.numbered]
    apply IdMap.rising_ext (IdMap.keys_rising _)
    · have rising := rising_numbers 1 (l.nodes.length + 1) (by omega)
      rw [List.range'_succ, List.map_cons, ← fresh.numbered] at rising
      exact rising
    · intro i
      rw [IdMap.mem_keys_iff, fresh.listed, List.mem_cons]

theorem leaves_within_leaf {path : String} (leaf : path ∈ l.leaves) :
    (l.leavesWithin path).length = 1 := by
  have alone : l.leavesWithin path = l.leaves.filter fun q => q = path := by
    refine List.filter_congr fun q member => ?_
    exact Bool.eq_iff_iff.mpr
      ((fresh.grown.within_leaf (leaf_entry member) leaf).trans decide_eq_true_iff.symm)
  have nodup : l.leaves.Nodup := fresh.nodup.filter _
  have once := List.count_eq_one_of_mem nodup leaf
  rw [List.count_eq_countP, List.countP_eq_length_filter] at once
  rw [alone]
  exact once

end Fresh

end Hierarchy

namespace Program

open Hierarchy

variable {cfg : Config} {h after : Hierarchy cfg} {l : Layout} {ids : List NodeId}

theorem dump_all_ok {rs : List Record} (readable : ∀ r ∈ rs, h.read r.id = .ok r) :
    dumpAll h (rs.map Record.id) = .ok (String.join (rs.map fun r => r.text ++ "\n")) := by
  induction rs with
  | nil => rfl
  | cons r rest ih =>
    have first := readable r (by simp)
    have later := ih fun q member => readable q (by simp [member])
    simp only [List.map_cons, dumpAll, Hierarchy.dump, first, later, String.join_cons]

theorem check_leaves_ok {perLeaf : UInt32} {leaves : List NodeId}
    (counted : ∀ id ∈ leaves, ∃ r, h.read id = .ok r ∧ r.counter.toNat = perLeaf.toNat) :
    checkLeaves h perLeaf leaves = .ok () := by
  induction leaves with
  | nil => rfl
  | cons id rest ih =>
    obtain ⟨r, found, equal⟩ := counted id (by simp)
    simp only [checkLeaves, found, equal, if_true]
    exact ih fun j member => counted j (by simp [member])

theorem count_ok {args : Arguments} {leaves : List NodeId} {placement : Nat → Cpu} {attached : Nat}
    {between : Hierarchy cfg} {sum : Summary}
    (run : Actors.attach h leaves args.perLeaf.toNat placement = (between, .ok attached))
    (flush : between.flush = (after, .ok sum)) : count args h leaves placement = .ok after := by
  obtain ⟨w, answer⟩ : ∃ w, Worker.flushSync between .spawned 0 = (after, w, .ok sum) := by
    obtain ⟨first, second⟩ := flush_sync_spawned between
    rw [flush] at first second
    exact ⟨_, Prod.ext first (Prod.ext rfl second)⟩
  simp only [count, run, answer]

theorem check_ok (fresh : h.Fresh l ids) {perLeaf : UInt32} (additive : after.Additive)
    (shape : SameShape h after)
    (entries : ∀ path ∈ l.nodes, ∀ k ∈ h.keys, h.trail k = Path.components path →
      after.total k = perLeaf.toNat * (l.leavesWithin path).length) :
    check after perLeaf (l.leaves.filterMap h.lookupId) = .ok () := by
  have leaves : checkLeaves after perLeaf (l.leaves.filterMap h.lookupId) = .ok () := by
    apply check_leaves_ok
    intro id member
    obtain ⟨path, leaf, found⟩ := List.mem_filterMap.mp member
    obtain ⟨k, entry, trail⟩ := fresh.grown.charted.lookup_id_iff.mp found
    have among : k ∈ h.keys := IdMap.mem_values.mpr ⟨id, entry⟩
    refine ⟨_, read_entry (shape.index ▸ entry), ?_⟩
    have total := entries path (leaf_entry leaf) k among trail
    rwa [fresh.leaves_within_leaf leaf, Nat.mul_one] at total
  simp only [check, leaves, additive.checks]

namespace Report

variable (r : Report) (quiet : Bool) (text : String)

@[simp]
theorem note_out : (r.note quiet text).out = r.out := by
  unfold note
  split <;> rfl

@[simp]
theorem note_status : (r.note quiet text).status = r.status := by
  unfold note
  split <;> rfl

@[simp]
theorem note_document : (r.note quiet text).document = r.document := by
  unfold note
  split <;> rfl

end Report

theorem header_kept (args : Arguments) (cfg : Config) (nodes leaves : Nat) (r : Report) :
    (header args cfg nodes leaves r).out = r.out ∧
      (header args cfg nodes leaves r).status = r.status ∧
      (header args cfg nodes leaves r).document = r.document := by
  unfold header
  split <;> simp

def documentOf (args : Arguments) (body : Json) : Option Document :=
  args.exportPath.map fun path =>
    ⟨path, body.pretty, if args.quiet then "" else "saved: " ++ path ++ "\n"⟩

/-- The report of a run that went well up to the writing of its document. -/
structure Presented (args : Arguments) (l : Layout) (r : Report) (body : Json) : Prop where
  status : r.status = .success
  out : r.out = String.join ((l.counts args.perLeaf.toNat).map Record.line)
  records : Json.records? body = some ((l.counts args.perLeaf.toNat).map Record.ofCount)
  document : r.document = documentOf args body

theorem export_document (args : Arguments) (h : Hierarchy cfg) (r : Report)
    (none : r.document = none) : (export? args h r).out = r.out ∧
      (export? args h r).status = r.status ∧
      (export? args h r).document = documentOf args (Export.document h) := by
  unfold export? documentOf
  cases args.exportPath with
  | none => simp [none]
  | some path => simp

theorem present_ok {args : Arguments} {leaves : List NodeId} {r : Report} {lines : String}
    (dumped : dumpAll h (NodeId.root :: ids) = .ok lines)
    (checked : check h args.perLeaf leaves = .ok ()) (fresh : r.document = none) :
    (present args h ids leaves r).out = r.out ++ lines ∧
      (present args h ids leaves r).status = r.status ∧
      (present args h ids leaves r).document = documentOf args (Export.document h) := by
  simp only [present, dumped, checked]
  split
  · have noted := export_document args h ((r.print lines).note args.quiet "check: ok")
      (by simpa [Report.print] using fresh)
    simpa [Report.print] using noted
  · have plain := export_document args h (r.print lines) (by simpa [Report.print] using fresh)
    simpa [Report.print] using plain

theorem run_layout_presented {args : Arguments} {around : Surroundings}
    {h : Hierarchy (config args around)}
    (built : l.build (Hierarchy.new (config args around)) = (h, .ok ids))
    (few : l.nodes.length + 1 < UInt64.size)
    (fits : args.perLeaf.toNat * l.leaves.length < UInt64.size) :
    ∃ body, Presented args l (runLayout args around l) body := by
  have fresh := built_fresh built few
  obtain ⟨between, after, sum, attached, flush, shape, additive, root, entries⟩ :=
    fresh.counted fits around.placement
  have charted : after.Charted := fresh.grown.charted.of_same shape additive.tracked.filed
  have counted := count_ok attached flush
  have reads := fresh.reads shape root entries
  have shown := fresh.snapshot_records shape charted few reads
  have checked := check_ok fresh additive shape entries
  have dumped := dump_all_ok reads
  rw [List.map_map] at dumped
  change dumpAll after
    ((l.counts args.perLeaf.toNat).map fun c => (Record.ofCount c).id) = _ at dumped
  rw [ids_of_counts, ← fresh.numbered, List.map_map] at dumped
  have lines : (l.counts args.perLeaf.toNat).map ((fun r => r.text ++ "\n") ∘ Record.ofCount) =
      (l.counts args.perLeaf.toNat).map Record.line := by
    refine List.map_congr_left fun c member => ?_
    obtain ⟨first, second⟩ := counts_fit few fits member
    exact Record.line_of_count first second
  rw [lines] at dumped
  obtain ⟨out, status, document⟩ := header_kept args (config args around) (ids.length + 1)
    (l.leaves.filterMap h.lookupId).length .begin
  obtain ⟨out', status', document'⟩ := present_ok dumped checked document
  refine ⟨Export.document after, ?_⟩
  simp only [runLayout, built, counted]
  constructor
  case status => exact status'.trans status
  case out =>
    rw [out', out]
    exact String.empty_append
  case records => rw [Json.records_of_document, shown]
  case document => exact document'

/-- A file that takes a document, or a device that does. -/
def Writable (files : Files) (path : String) : Prop :=
  ∃ target, files.target path = .ok target ∧ target ≠ .device .full

/-- The files after a document has gone to its target, and the output, where its lines have been
    printed before. -/
def delivered (files : Files) (lines body : String) :
    Except FileFault Files.Target → Files × String
  | .ok (.file place) => (files.put place (body ++ "\n").toUTF8, lines)
  | .ok (.device .output) => (files, files.output.after lines (body ++ "\n"))
  | _ => (files, lines)

theorem save_writable {files : Files} {r : Report} {document : Document}
    (writable : Writable files document.path) :
    (save files r document).2.status = r.status ∧
      ((save files r document).1, (save files r document).2.out) =
        delivered files r.out document.body (files.target document.path) := by
  obtain ⟨target, opened, open_ended⟩ := writable
  simp only [save, opened]
  cases target with
  | file place => simp [delivered, Report.conclude]
  | device device =>
    cases device with
    | full => exact absurd rfl open_ended
    | sink => simp [delivered, saveOn, sinkOf, Export.write_body_unlimited, Report.conclude]
    | output => simp [delivered, saveOn, sinkOf, Export.write_body_unlimited, Report.conclude]
    | errors => simp [delivered, saveOn, sinkOf, Export.write_body_unlimited, Report.conclude]

def EndsEarly (files : Files) (outcome : Files × Report) : Prop :=
  outcome.1 = files ∧ outcome.2.status.code = 2 ∧ outcome.2.out = ""

/-- A run that succeeds with one line for each node in its output, and its document delivered. -/
def Completes (args : Arguments) (files : Files) (l : Layout) (outcome : Files × Report) : Prop :=
  ∃ body, Json.records? body = some ((l.counts args.perLeaf.toNat).map Record.ofCount) ∧
    outcome.2.status.code = 0 ∧
    let lines := String.join ((l.counts args.perLeaf.toNat).map Record.line)
    (outcome.1, outcome.2.out) = match args.exportPath with
      | none => (files, lines)
      | some path => delivered files lines body.pretty (files.target path)

theorem followed_by_document {args : Arguments} {files : Files} {path : String}
    {outcome : Files × Report} (given : args.exportPath = some path)
    (opened : files.target path = .ok (.device .output)) (stream : files.output = .stream)
    (completes : Completes args files l outcome) :
    outcome.2.status.code = 0 ∧
      outcome.2.out ≠ String.join ((l.counts args.perLeaf.toNat).map Record.line) := by
  obtain ⟨body, _, status, whole⟩ := completes
  simp only [given, opened, delivered, stream, Output.after, Prod.mk.injEq] at whole
  refine ⟨status, fun same => ?_⟩
  have longer := congrArg String.length (same.symm.trans whole.2)
  have newline : "\n".length = 1 := rfl
  rw [String.length_append, String.length_append, newline] at longer
  omega

section
variable (args : Arguments) (files : Files) (cpus : Nat) (placement : Nat → Cpu)

def surroundings : Surroundings := ⟨files.read (args.layout.getD ""), cpus, placement⟩

theorem ends_early_of_layout {cause : String}
    (failed : loadLayout args (surroundings args files cpus placement) = .error cause) :
    EndsEarly files (runAmong args files cpus placement) := by
  rw [surroundings] at failed
  simp only [runAmong, run, failed]
  exact ⟨rfl, rfl, rfl⟩

theorem ends_early_of_build {fault : Layout.Fault}
    (loaded : loadLayout args (surroundings args files cpus placement) = .ok l)
    (failed : (l.build (Hierarchy.new (config args (surroundings args files cpus placement)))).2 =
      .error fault) :
    EndsEarly files (runAmong args files cpus placement) := by
  rw [surroundings] at loaded failed
  cases outcome : l.build (Hierarchy.new
      (config args ⟨files.read (args.layout.getD ""), cpus, placement⟩)) with
  | mk h result =>
    rw [outcome] at failed
    obtain rfl : result = .error fault := failed
    simp only [runAmong, run, loaded, runLayout, outcome]
    exact ⟨rfl, rfl, rfl⟩

theorem run_among_plain
    (none : (run args (surroundings args files cpus placement)).document = none) :
    runAmong args files cpus placement =
      (files, run args (surroundings args files cpus placement)) := by
  unfold surroundings at none ⊢
  simp only [runAmong, none]

theorem run_among_saving (document : Document)
    (some : (run args (surroundings args files cpus placement)).document = some document) :
    runAmong args files cpus placement =
      save files (run args (surroundings args files cpus placement)) document := by
  unfold surroundings at some ⊢
  simp only [runAmong, some]

theorem completes_of_build
    (loaded : loadLayout args (surroundings args files cpus placement) = .ok l)
    (built : (l.build (Hierarchy.new (config args (surroundings args files cpus placement)))).2 =
      .ok ids)
    (few : l.nodes.length + 1 < UInt64.size)
    (fits : args.perLeaf.toNat * l.leaves.length < UInt64.size)
    (writable : ∀ path, args.exportPath = some path → Writable files path) :
    Completes args files l (runAmong args files cpus placement) := by
  have whole : l.build (Hierarchy.new (config args (surroundings args files cpus placement))) =
      (_, .ok ids) := Prod.ext rfl built
  obtain ⟨body, presented⟩ := run_layout_presented whole few fits
  have report : run args (surroundings args files cpus placement) =
      runLayout args (surroundings args files cpus placement) l := by
    simp only [run, loaded]
  have plain := run_among_plain args files cpus placement
  have saving := run_among_saving args files cpus placement
  rw [report, presented.document, documentOf] at plain saving
  refine ⟨body, presented.records, ?_⟩
  cases path : args.exportPath with
  | none =>
    rw [path, Option.map_none] at plain
    rw [plain rfl]
    exact ⟨by rw [presented.status]; rfl, by rw [presented.out]⟩
  | some path' =>
    let document : Document :=
      ⟨path', body.pretty, if args.quiet then "" else "saved: " ++ path' ++ "\n"⟩
    have target : Writable files document.path := writable path' path
    obtain ⟨status, left⟩ := save_writable
      (r := runLayout args (surroundings args files cpus placement) l) target
    rw [path, Option.map_some] at saving
    rw [saving document rfl]
    rw [presented.out] at left
    exact ⟨by rw [status, presented.status]; rfl, left⟩

end

def savingArguments (path : String) : Arguments :=
  { layout := none, perLeaf := 3, cpus := some 2, flushIntervalMs := 0, exportPath := some path
    check := true, quiet := true }

def savingFiles : Files where
  entries :=
    [(["run"], .directory), (["dev"], .directory), (["stdout", "dev"], .device .output)]
  here := ["run"]

end Program

end Rollup
