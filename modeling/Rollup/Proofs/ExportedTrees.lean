import Mathlib
import Rollup.Export
import Rollup.Record.Json
import Rollup.Proofs.DumpLines
import Rollup.Proofs.OneTree
import Rollup.Proofs.PrintedJson

/-!
Exported documents and what a reader of them learns. The text of an export is one document and a
line end, whatever characters the names of nodes hold. Decoded again, it has the number of CPUs, the
flushes, and one entry for every node of the tree by increasing id, with all that links the node to
others and all that was counted for it. So an export tells apart any two states that differ in any
of these.
-/
namespace Rollup

namespace Json

def nat? : Json → Option Nat
  | .number lexeme => Decimal.nat? lexeme
  | _ => none

def id? (v : Json) : Option NodeId := v.word?.map NodeId.mk

def ids? : Json → Option (List NodeId)
  | .array items => items.mapM id?
  | _ => none

def link? : Json → Option (Option NodeId)
  | .null => some none
  | v => v.id?.map some

@[simp] theorem nat_of_nat (n : Nat) : (ofNat n).nat? = some n :=
  Decimal.nat_digits n

@[simp] theorem id_of_word (i : NodeId) : (ofWord i.val).id? = some i := by
  simp [id?]

theorem map_decoded {α β : Type} {decode : Json → Option β} {encode : α → Json} {f : α → β}
    (back : ∀ a, decode (encode a) = some (f a)) (all : List α) :
    (all.map encode).mapM decode = some (all.map f) := by
  induction all with
  | nil => rfl
  | cons a rest ih => simp [List.mapM_cons, back, ih]

@[simp] theorem ids_of_words (ids : List NodeId) :
    (array (ids.map fun i => ofWord i.val)).ids? = some ids := by
  have all := map_decoded id_of_word ids
  rwa [List.map_id'] at all

@[simp] theorem link_of_parent (parent : Option NodeId) :
    (match parent with
      | some parent => ofWord parent.val
      | none => null).link? = some parent := by
  cases parent with
  | none => rfl
  | some p => exact congrArg (Option.map some) (id_of_word p)

end Json

namespace NodeView

theorem to_json_plain {a b c d e f g k : Json} : Json.Plain [("id", a), ("counter", b),
    ("name", c), ("path", d), ("depth", e), ("parent", f), ("own", g), ("children", k)] := by
  simp only [Json.Plain, List.map_cons, List.map_nil]
  decide

theorem to_json_sound (v : NodeView) : v.toJson.Sound := by
  refine Json.of_fields_sound to_json_plain ?_
  simp only [List.forall_mem_cons]
  refine ⟨Json.of_nat_sound _, Json.of_nat_sound _, Json.of_string_sound _, Json.of_string_sound _,
    Json.of_nat_sound _, ?parent, Json.of_nat_sound _, ?children, by simp⟩
  case parent =>
    split
    · exact Json.of_nat_sound _
    · exact Json.null_sound
  case children =>
    refine Json.array_sound fun item member => ?_
    obtain ⟨child, -, rfl⟩ := List.mem_map.mp member
    exact Json.of_nat_sound _

theorem record_to_json (v : NodeView) : Record.ofJson? v.toJson = some v.record := by
  simp only [toJson, Json.ofFields, Record.ofJson?]
  rw [Json.fields_of_plain to_json_plain]
  simp [Json.field?, record]

end NodeView

namespace Export

structure Entry where
  record : Record
  name : String
  path : String
  depth : Nat
  parent : Option NodeId
  own : UInt64
  children : List NodeId
  deriving DecidableEq, Repr

structure Contents where
  cpus : Nat
  flushes : Nat
  nodes : List Entry
  deriving DecidableEq, Repr

def Entry.ofJson? (v : Json) : Option Entry := do
  let record ← Record.ofJson? v
  match v with
  | .object members =>
    let fields ← Json.fields? members
    let name ← (← Json.field? fields "name").string?
    let path ← (← Json.field? fields "path").string?
    let depth ← (← Json.field? fields "depth").nat?
    let parent ← (← Json.field? fields "parent").link?
    let own ← (← Json.field? fields "own").word?
    let children ← (← Json.field? fields "children").ids?
    return ⟨record, name, path, depth, parent, own, children⟩
  | _ => none

def Contents.ofJson? : Json → Option Contents
  | .object members => do
    let fields ← Json.fields? members
    let cpus ← Json.field? fields "nr_cpus"
    let flushes ← Json.field? fields "flushes"
    match ← Json.field? fields "nodes" with
    | .array items => return ⟨← cpus.nat?, ← flushes.nat?, ← items.mapM Entry.ofJson?⟩
    | _ => none
  | _ => none

def Entry.ofView (v : NodeView) : Entry :=
  ⟨v.record, v.name, v.path, v.depth, v.parent, v.own, v.children⟩

theorem Entry.of_json_to_json (v : NodeView) : Entry.ofJson? v.toJson = some (Entry.ofView v) := by
  rw [Entry.ofJson?, v.record_to_json]
  simp only [NodeView.toJson, Json.ofFields]
  rw [Json.fields_of_plain NodeView.to_json_plain]
  -- every field is found under its key
  change (do
    let name ← (Json.ofString v.name).string?
    let path ← (Json.ofString v.path).string?
    let depth ← (Json.ofNat v.depth).nat?
    let parent ← Json.link? (match v.parent with
      | some parent => Json.ofWord parent.val
      | none => Json.null)
    let own ← (Json.ofWord v.own).word?
    let children ← (Json.array (v.children.map fun child : NodeId => Json.ofWord child.val)).ids?
    return Entry.mk v.record name path depth parent own children) = _
  simp [Entry.ofView]

variable {cfg : Config} {h : Hierarchy cfg}

theorem document_plain {a b c : Json} :
    Json.Plain [("nr_cpus", a), ("flushes", b), ("nodes", c)] := by
  simp only [Json.Plain, List.map_cons, List.map_nil]
  decide

theorem document_sound (h : Hierarchy cfg) : (document h).Sound := by
  refine Json.of_fields_sound document_plain ?_
  simp only [List.forall_mem_cons]
  refine ⟨Json.of_nat_sound _, Json.of_nat_sound _, Json.array_sound fun item member => ?_, by simp⟩
  obtain ⟨v, -, rfl⟩ := List.mem_map.mp member
  exact v.to_json_sound

def contents (h : Hierarchy cfg) : Contents :=
  ⟨cfg.cpus, h.flushes, h.snapshot.map Entry.ofView⟩

theorem contents_of_document (h : Hierarchy cfg) :
    Contents.ofJson? (document h) = some (contents h) := by
  simp only [document, Json.ofFields, Contents.ofJson?]
  rw [Json.fields_of_plain document_plain]
  simp [Json.field?, contents, Json.map_decoded Entry.of_json_to_json]

theorem parse_text (h : Hierarchy cfg) : Json.parse (text h) = some (document h) :=
  (document_sound h).parse_pretty_line

theorem write_ok {sink : Sink} {out : String} (written : write h sink = .ok out) :
    out = text h := by
  unfold write writeBody at written
  split at written
  · simp at written
  · split at written
    · simp at written
    · split at written
      · simp at written
      · exact (Except.ok.inj written).symm

theorem write_body_unlimited (body : String) :
    writeBody body .unlimited = .ok (body ++ "\n") := by
  simp [writeBody, Sink.unlimited, Sink.fits]

theorem write_unlimited (h : Hierarchy cfg) : write h .unlimited = .ok (text h) := by
  rw [write, write_body_unlimited, text]

structure Entry.Describes (h : Hierarchy cfg) (e : Entry) (k : Nat) : Prop where
  name : e.name = (h.node k).name
  path : e.path = h.pathOf k
  depth : e.depth = (h.node k).depth
  parent : e.parent = (h.node k).parent.map fun p => (h.node p).id
  top : e.parent = none ↔ e.record.id = NodeId.root
  own : e.own = (h.node k).own
  children : e.children = (h.node k).children.keys
  read : h.read e.record.id = .ok e.record

/-- A document that holds one entry for each node of the tree, by increasing id. -/
structure Contents.Describes (h : Hierarchy cfg) (c : Contents) : Prop where
  cpus : c.cpus = cfg.cpus
  flushes : c.flushes = h.flushes
  ids : c.nodes.map (fun e => e.record.id) = h.index.keys
  rising : IdMap.Rising h.index.keys
  nodes : ∀ e ∈ c.nodes, ∃ k, h.index[e.record.id]? = some k ∧ e.Describes h k

theorem Entry.describes_of_view (charted : h.Charted) {k : Nat} (member : k ∈ h.keys) :
    (Entry.ofView (h.view k)).Describes h k where
  name := rfl
  path := rfl
  depth := rfl
  parent := by
    have live := (charted.toShaped.key_of_mem member).2
    change (h.parent? k).map _ = _
    rw [charted.toShaped.parent_of_live live]
  top := charted.snapshot_coherent.topmost _ (List.mem_map_of_mem member)
  own := rfl
  children := charted.child_ids member
  read := Hierarchy.read_entry (charted.entry member)

theorem describes_of_contents (charted : h.Charted) : (contents h).Describes h where
  cpus := rfl
  flushes := rfl
  ids := by
    rw [← charted.snapshot_ids, contents, List.map_map]
    rfl
  rising := IdMap.keys_rising h.index
  nodes := by
    intro e member
    obtain ⟨v, shown, rfl⟩ := List.mem_map.mp member
    obtain ⟨k, key, rfl⟩ := List.mem_map.mp shown
    exact ⟨k, charted.entry key, Entry.describes_of_view charted key⟩

/-- What two states have in common that an export cannot tell apart. -/
structure ShownAlike {cfg' : Config} (h : Hierarchy cfg) (h' : Hierarchy cfg') : Prop where
  cpus : cfg.cpus = cfg'.cpus
  flushes : h.flushes = h'.flushes
  ids : h.index.keys = h'.index.keys
  nodes : ∀ (id : NodeId) (k k' : Nat), h.index[id]? = some k → h'.index[id]? = some k' →
    (h.node k).name = (h'.node k').name ∧ h.pathOf k = h'.pathOf k' ∧
    (h.node k).depth = (h'.node k').depth ∧
    (h.node k).parent.map (fun p => (h.node p).id) =
      (h'.node k').parent.map (fun p => (h'.node p).id) ∧
    (h.node k).children.keys = (h'.node k').children.keys ∧
    (h.node k).total = (h'.node k').total ∧ (h.node k).own = (h'.node k').own

theorem Contents.Describes.shown_alike {cfg' : Config} {h' : Hierarchy cfg'} {c : Contents}
    (first : c.Describes h) (second : c.Describes h') : ShownAlike h h' where
  cpus := first.cpus.symm.trans second.cpus
  flushes := first.flushes.symm.trans second.flushes
  ids := first.ids.symm.trans second.ids
  nodes := by
    intro id k k' found found'
    have listed : id ∈ c.nodes.map fun e => e.record.id := by
      rw [first.ids]
      exact IdMap.mem_keys_iff.mpr ⟨k, found⟩
    obtain ⟨e, member, rfl⟩ := List.mem_map.mp listed
    obtain ⟨j, entry, left⟩ := first.nodes e member
    obtain ⟨j', entry', right⟩ := second.nodes e member
    obtain rfl := Option.some.inj (entry.symm.trans found)
    obtain rfl := Option.some.inj (entry'.symm.trans found')
    have total := (Hierarchy.read_entry entry).symm.trans left.read
    have total' := (Hierarchy.read_entry entry').symm.trans right.read
    refine ⟨left.name.symm.trans right.name, left.path.symm.trans right.path,
      left.depth.symm.trans right.depth, left.parent.symm.trans right.parent,
      left.children.symm.trans right.children, ?_, left.own.symm.trans right.own⟩
    exact congrArg Record.counter (Except.ok.inj (total.trans total'.symm))

theorem shown_alike_of_text {cfg' : Config} {h' : Hierarchy cfg'} (charted : h.Charted)
    (charted' : h'.Charted) (same : text h = text h') : ShownAlike h h' := by
  have documents : document h = document h' := by
    have parsed := parse_text h
    rw [same, parse_text h'] at parsed
    exact (Option.some.inj parsed).symm
  have read : contents h = contents h' := by
    have decoded := contents_of_document h
    rw [documents, contents_of_document h'] at decoded
    exact (Option.some.inj decoded).symm
  exact (describes_of_contents charted).shown_alike (read ▸ describes_of_contents charted')

end Export

namespace Session

open Export

/-- In every state of every session, an export writes one document and a line end, if it writes all.
    The document decodes to what the hierarchy holds, with one entry for each node of the tree by
    increasing id, which read as a record is what a read of the node gives. Two states of any
    sessions with the same text are alike. -/
theorem exports_decode (cfg : Config) (steps : List Step) :
    let h := ((start cfg).run steps).hierarchy
    (∀ sink out, write h sink = .ok out → out = text h) ∧ write h .unlimited = .ok (text h) ∧
    (∃ body v c, text h = body ++ "\n" ∧ Json.parse body = some v ∧ Json.parse (text h) = some v ∧
      Contents.ofJson? v = some c ∧ c.Describes h) ∧
    ∀ (cfg' : Config) (steps' : List Step),
      text h = text ((start cfg').run steps').hierarchy →
        ShownAlike h ((start cfg').run steps').hierarchy := by
  intro h
  have charted : h.Charted := run_charted cfg steps
  refine ⟨fun sink out => write_ok, write_unlimited h, ?_, ?_⟩
  · exact ⟨(document h).pretty, document h, contents h, rfl, (document_sound h).parse_pretty,
      parse_text h, contents_of_document h, describes_of_contents charted⟩
  · intro cfg' steps' same
    exact shown_alike_of_text charted (run_charted cfg' steps') same

def rarelyNamed : List Step :=
  [.create NodeId.root "a\"b\\c", .create ⟨2⟩ "\n\x01\x7f", .create ⟨2⟩ "😀", .add ⟨3⟩ ⟨1⟩ 5, .flush]

def rarelyNamedAgain : List Step := .sizes :: rarelyNamed ++ [.add ⟨4⟩ ⟨0⟩ 0]

theorem exports_decode_rarely_named :
    let h := ((start ⟨2⟩).run rarelyNamed).hierarchy
    let g := ((start ⟨2⟩).run rarelyNamedAgain).hierarchy
    (∃ out, write h .unlimited = .ok out ∧ ∃ c, (Json.parse out).bind Contents.ofJson? = some c ∧
      c.Describes h ∧ h.index.keys = [⟨1⟩, ⟨2⟩, ⟨3⟩, ⟨4⟩]) ∧
    text h = text g ∧ ShownAlike h g := by
  intro h g
  obtain ⟨_, written, ⟨_, v, c, _, _, parsed, decoded, describes⟩, alike⟩ :=
    exports_decode ⟨2⟩ rarelyNamed
  have shown : h.snapshot = g.snapshot := by decide +kernel
  have flushes : h.flushes = g.flushes := by decide +kernel
  have same : text h = text g := by simp only [text, document, shown, flushes]
  refine ⟨⟨text h, written, c, ?_, describes, by decide +kernel⟩, same,
    alike ⟨2⟩ rarelyNamedAgain same⟩
  rw [parsed, Option.bind_some, decoded]

end Session

end Rollup
