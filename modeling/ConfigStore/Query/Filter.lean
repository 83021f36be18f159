import ConfigStore.Document.Labels
import ConfigStore.Query.KeyPattern

/-!
# Queries

A query lists what a document must satisfy, and which page of the documents that satisfy it is
wanted. A criterion that is left empty asks for nothing.

* `Query` is the type; `Query.accepts` tests a document.
* `Query.isUnique` holds for queries that are meant to find at most one document.

Keys are tested against the pattern itself. That the regular expression it is compiled to accepts
the same keys is proved with the meaning of patterns (`Query.acceptsKey_eq`). An engine for regular
expressions limits the size of what it compiles, and a query that goes over the limit fails; this
limit is left out, so here every key can be asked for.
-/

namespace ConfigStore

/-- What documents are asked for. -/
structure Query where
  /-- A query for keys: a literal key, `beginWith(text)` or `wildcard(text)`. -/
  key : String := ""
  /-- The labels to look for. -/
  labels : Labels := .empty
  /-- Whether the labels must be the same instead of being among those of the document. -/
  exactLabels : Bool := false
  /-- The label format. -/
  labelFormat : String := ""
  /-- The status. -/
  status : String := ""
  /-- A text that the value must contain. -/
  value : String := ""
  /-- Whether capital and small letters of keys are told apart. -/
  caseSensitive : Bool := false
  /-- How many documents to pass over. -/
  offset : Nat := 0
  /-- How many documents to give at most; zero stands for all. -/
  limit : Nat := 0
  deriving DecidableEq, Inhabited

/-- Whether a text occurs within another. -/
def occursIn (part : List Char) : List Char → Bool
  | [] => part.isEmpty
  | c :: cs => part.isPrefixOf (c :: cs) || occursIn part cs

namespace Query

/-- The key is one that is asked for. -/
def acceptsKey (q : Query) (key : String) : Bool :=
  q.key = "" || (KeyPattern.parse q.key).describes q.caseSensitive key

/-- The labels are those asked for, or contain them. -/
def acceptsLabels (q : Query) (labels : Labels) : Bool :=
  if q.exactLabels then q.labels.equivalent labels else labels.contains q.labels

/-- Whether a document satisfies every criterion of a query. -/
def accepts (q : Query) (d : Document) : Bool :=
  (q.status = "" || d.status == q.status)
    && q.acceptsKey d.key
    && q.acceptsLabels d.labels
    && (q.labelFormat = "" || d.labelFormat == q.labelFormat)
    && (q.value = "" || occursIn q.value.toList d.value.toList)

/-- A key and a label format together are meant to name one document. -/
def isUnique (q : Query) : Bool := q.key ≠ "" && q.labelFormat ≠ ""

end Query

end ConfigStore
