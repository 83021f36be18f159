import ConfigStore.Dict

/-!
# Documents

A document is one configuration value: a key and its value within a project of a domain, with
labels that say where it applies, and with the revisions and times of its creation and of its last
change.

* `Document` is the type; `Document.fresh` makes a new one.
* `Labels` are the labels of a document.
* `Listing` is a page of documents with the number of all that were found.
-/

namespace ConfigStore

/-- Labels: a value under each label name. -/
abbrev Labels := Dict String

/-- A labelled, versioned configuration value. -/
structure Document where
  /-- The name of the document within its project. -/
  id : String := ""
  /-- A name for the labels that the document is meant to carry. -/
  labelFormat : String := ""
  /-- The configuration key. -/
  key : String := ""
  /-- The configured value. -/
  value : String := ""
  /-- What kind of text the value is. -/
  valueType : String := ""
  /-- How the value is checked. -/
  checker : String := ""
  /-- The revision at which the document was created. -/
  createRevision : Int64 := 0
  /-- The revision of the last change. -/
  updateRevision : Int64 := 0
  /-- The project that the document belongs to. -/
  project : String := ""
  /-- Whether the document is in force. -/
  status : String := ""
  /-- When the document was created. -/
  createTime : Int64 := 0
  /-- When the document was changed last. -/
  updateTime : Int64 := 0
  /-- The labels of the document. -/
  labels : Labels := .empty
  /-- The domain that the project belongs to. -/
  domain : String := ""
  deriving DecidableEq, Inhabited

namespace Document

/-- A new document with a given id, created now. -/
def fresh (id : String) (now : Int64) (domain project key value : String) : Document :=
  { id, domain, project, key, value, createTime := now, updateTime := now }

/-- The document with other labels. -/
def withLabels (d : Document) (labels : Labels) : Document := { d with labels }

/-- The document as written first at a revision. -/
def withRevision (d : Document) (revision : Int64) : Document :=
  { d with createRevision := revision, updateRevision := revision }

/-- The place of a document: domain, project and id, between slashes. -/
def path (d : Document) : String := d.domain ++ "/" ++ d.project ++ "/" ++ d.id

end Document

/-- A page of documents. -/
structure Listing where
  /-- How many documents were found before the page was cut out. -/
  total : Nat := 0
  /-- The documents of the page. -/
  data : List Document := []
  deriving DecidableEq, Inhabited

/-- The page that holds everything found. -/
def Listing.all (docs : List Document) : Listing := ⟨docs.length, docs⟩

end ConfigStore
