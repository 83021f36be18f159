import ConfigStore.Document.Basic
import ConfigStore.Sorting

/-!
# The order of documents, and pages

Listings put the most specific documents first: more labels before fewer, then later revisions
before earlier ones, then ids in ascending order.

* `Document.precedes` compares two documents and `byPriority` sorts documents.
* `page` cuts a page out of a list.
-/

namespace ConfigStore

/-- Whether the first document may stand before the second. -/
def Document.precedes (a b : Document) : Bool :=
  if a.labels.size ≠ b.labels.size then b.labels.size < a.labels.size
  else if a.updateRevision ≠ b.updateRevision then b.updateRevision < a.updateRevision
  else a.id ≤ b.id

/-- The documents in the order of listings; documents that no rule tells apart keep their order. -/
def byPriority (docs : List Document) : List Document := sortBy Document.precedes docs

/-- At most `limit` elements from place `offset` on; all of them if `limit` is zero. -/
def page {α : Type} (items : List α) (offset limit : Nat) : List α :=
  if limit = 0 then items.drop offset else (items.drop offset).take limit

/-- A page of documents in the order of listings. -/
def Listing.ofFound (docs : List Document) (offset limit : Nat) : Listing :=
  ⟨docs.length, page (byPriority docs) offset limit⟩

end ConfigStore
