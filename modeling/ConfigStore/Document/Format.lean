import ConfigStore.Document.Basic
import ConfigStore.Json.Record

/-!
# The JSON form of documents

A document is written as a JSON object. Its members come in a fixed order; empty texts, zero numbers
and empty labels are left out, except for the key and the value. Only the key must be there when a
document is read; labels may also be `null`.

* `Document.toJson`, `Document.encode` and `Document.decode` write and read documents.
* `Listing.toJson` and `Listing.decode` do the same for pages of documents.
-/

namespace ConfigStore

open Json

namespace Json.Value

/-- An integer. -/
def int (n : Int) : Value := .number (.integer n)

/-- A member with a text, left out if the text is empty. -/
def textMember (name text : String) : List (String × Value) :=
  if text = "" then [] else [(name, .string text)]

/-- A member with a number, left out if the number is zero. -/
def numberMember (name : String) (n : Int64) : List (String × Value) :=
  if n = 0 then [] else [(name, .int n.toInt)]

/-- A map as an object. -/
def ofDict {α : Type} (value : α → Value) (d : Dict α) : Value :=
  .object (d.pairs.map fun p => (p.1, value p.2))

/-- A member with a map, left out if the map is empty. -/
def dictMember {α : Type} (name : String) (value : α → Value) (d : Dict α) :
    List (String × Value) :=
  if d.isEmpty then [] else [(name, ofDict value d)]

end Json.Value

/-! ## Documents -/

namespace Document

/-- The document as a JSON object. -/
def toJson (d : Document) : Value :=
  .object (
    Value.textMember "id" d.id ++
    Value.textMember "label_format" d.labelFormat ++
    [("key", .string d.key), ("value", .string d.value)] ++
    Value.textMember "value_type" d.valueType ++
    Value.textMember "check" d.checker ++
    Value.numberMember "create_revision" d.createRevision ++
    Value.numberMember "update_revision" d.updateRevision ++
    Value.textMember "project" d.project ++
    Value.textMember "status" d.status ++
    Value.numberMember "create_time" d.createTime ++
    Value.numberMember "update_time" d.updateTime ++
    Value.dictMember "labels" .string d.labels ++
    Value.textMember "domain" d.domain)

/-- The fields of a document, in the order in which they are written. -/
def fields : List (RecordField Document) := [
  .optional "id" Reader.text fun x d => { d with id := x },
  .optional "label_format" Reader.text fun x d => { d with labelFormat := x },
  .mandatory "key" Reader.text fun x d => { d with key := x },
  .optional "value" Reader.text fun x d => { d with value := x },
  .optional "value_type" Reader.text fun x d => { d with valueType := x },
  .optional "check" Reader.text fun x d => { d with checker := x },
  .optional "create_revision" Reader.integer64 fun x d => { d with createRevision := x },
  .optional "update_revision" Reader.integer64 fun x d => { d with updateRevision := x },
  .optional "project" Reader.text fun x d => { d with project := x },
  .optional "status" Reader.text fun x d => { d with status := x },
  .optional "create_time" Reader.integer64 fun x d => { d with createTime := x },
  .optional "update_time" Reader.integer64 fun x d => { d with updateTime := x },
  .optional "labels" (Reader.nullAs .empty (Reader.dict Reader.text))
    fun x d => { d with labels := x },
  .optional "domain" Reader.text fun x d => { d with domain := x }]

/-- Reads a document. -/
def reader : Reader Document := Reader.record fields {}

/-- The bytes of a document. -/
def encode (d : Document) : Bytes := d.toJson.encode

/-- Reads a document from bytes. -/
def decode (bytes : Bytes) : Except Fault Document := reader.run bytes

end Document

/-! ## Pages -/

namespace Listing

/-- The page as a JSON object. -/
def toJson (l : Listing) : Value :=
  .object [("total", .int l.total), ("data", .array (l.data.map Document.toJson))]

/-- The fields of a page. -/
def fields : List (RecordField Listing) := [
  .optional "total" (Reader.natural (UInt64.size - 1)) fun x l => { l with total := x },
  .optional "data" (Reader.list Document.reader) fun x l => { l with data := x }]

/-- Reads a page from bytes. -/
def decode (bytes : Bytes) : Except Fault Listing := (Reader.record fields {}).run bytes

end Listing

end ConfigStore
