import Rollup.Json.Reader
import Rollup.Record

/-!
Records as JSON: an object with the two fields, or an array of the two numbers in their order.
Other fields are passed over, but each of the two must occur once.
-/
namespace Rollup.Record

def toJson (r : Record) : Json :=
  .ofFields [("id", .ofWord r.id.val), ("counter", .ofWord r.counter)]

def ofJson? : Json → Option Record
  | .array [id, counter] => do
    return ⟨⟨← id.word?⟩, ← counter.word?⟩
  | .object members => do
    let fields ← Json.fields? members
    let id ← Json.field? fields "id"
    let counter ← Json.field? fields "counter"
    return ⟨⟨← id.word?⟩, ← counter.word?⟩
  | _ => none

def ofJsonText? (text : String) : Option Record := (Json.parse text).bind ofJson?

end Rollup.Record
