import ConfigStore.Document.Basic

/-!
# Comparing labels

Queries and permissions name labels. There are three ways to compare them with the labels of a
document.

* `Labels.equivalent`: the same labels.
* `Labels.contains`: the first carry every label of the second.
* `Labels.compatible`: no label name has two values; names that only one side knows do not matter.

A list of label sets admits a document if one of its sets is compatible with the document.
-/

namespace ConfigStore

namespace Labels

/-- Both label sets are the same. -/
def equivalent (x y : Labels) : Bool := x == y

/-- Every label of `y` is a label of `x`. A larger set cannot be contained in a smaller one. -/
def contains (x y : Labels) : Bool :=
  y.size ≤ x.size && y.pairs.all fun (name, value) => x.get? name == some value

/-- No label of `permitted` has another value in `labels`. -/
def compatible (labels permitted : Labels) : Bool :=
  permitted.pairs.all fun (name, value) =>
    match labels.get? name with
    | none => true
    | some own => own == value

end Labels

namespace Document

/-- One of the label sets is compatible with the labels of the document. -/
def admittedBy (d : Document) (permitted : List Labels) : Bool :=
  permitted.any fun labels => d.labels.compatible labels

end Document

/-- The documents that one of the label sets admits, in their order. -/
def admitted (permitted : List Labels) (docs : List Document) : List Document :=
  docs.filter (·.admittedBy permitted)

end ConfigStore
