import ConfigStore.Proofs.Json.Filling

/-!
# Documents that are written and read back

The bytes of a document are read as the same document, and so are the bytes of a page of documents.

* `Document.fills_members` says that the members of a document fill its fields.
* `Document.decode_encode` is the round trip of a document, `Listing.decode_encode` that of a page.
-/

namespace ConfigStore

open Json

/-! ## Documents -/

namespace Document

/-- The members of a document. -/
def members (d : Document) : List (String × Value) :=
  Value.textMember "id" d.id ++
  Value.textMember "label_format" d.labelFormat ++
  [("key", .string d.key), ("value", .string d.value)] ++
  Value.textMember "value_type" d.valueType ++
  Value.textMember "check" d.checker ++
  Value.numberMember "create_revision" d.createRevision ++
  Value.numberMember "update_revision" d.updateRevision ++
  Value.textMember "project" d.project ++
  Value.textMember "status" d.status ++
  Value.numberMember "create_time" d.createTime ++
  Value.numberMember "update_time" d.updateTime ++
  Value.dictMember "labels" .string d.labels ++
  Value.textMember "domain" d.domain

theorem toJson_eq (d : Document) : d.toJson = .object d.members := rfl

theorem plain_toJson (d : Document) : d.toJson.Plain := by
  have hlabels := Value.plainMembers_dictMember .string "labels" (d := d.labels)
    fun _ _ => trivial
  rw [toJson_eq, Value.Plain, members]
  simp [Value.plainMembers_append, Value.plainMembers_textMember, Value.plainMembers_numberMember,
    hlabels, Value.PlainMembers, Value.Plain]

/-- The members of a document have different names. -/
theorem nodup_members (d : Document) : (d.members.map (·.1)).Nodup := by
  have hnames : (d.members.map (·.1)).Sublist (fields.map (·.name)) := by
    simp only [members, List.map_append]
    exact (((((((((((((Value.names_textMember _ _).append (Value.names_textMember _ _)).append
      (List.Sublist.refl ["key", "value"])).append (Value.names_textMember _ _)).append
      (Value.names_textMember _ _)).append (Value.names_numberMember _ _)).append
      (Value.names_numberMember _ _)).append (Value.names_textMember _ _)).append
      (Value.names_textMember _ _)).append (Value.names_numberMember _ _)).append
      (Value.names_numberMember _ _)).append (Value.names_dictMember _ _ _)).append
      (Value.names_textMember _ _))
  exact hnames.nodup (by decide)

/-- The members of a document fill its fields. -/
theorem fills_members (d : Document) (depth : Nat) :
    Reader.Fills fields (depth + 1) {} d.members d := by
  have hvalue : Reader.Fills fields (depth + 1) {} _
      { id := d.id, labelFormat := d.labelFormat, key := d.key, value := d.value } :=
    ((Reader.Fills.textMember "id" (fun x (e : Document) => { e with id := x }) d.id rfl rfl).append
      (.textMember "label_format" (fun x (e : Document) => { e with labelFormat := x })
        d.labelFormat rfl rfl)).append
      ((Reader.Fills.text "key" (fun x (e : Document) => { e with key := x }) d.key rfl).append
        (.text "value" (fun x (e : Document) => { e with value := x }) d.value rfl))
  have hchecker : Reader.Fills fields (depth + 1) {} _
      { id := d.id, labelFormat := d.labelFormat, key := d.key, value := d.value,
        valueType := d.valueType, checker := d.checker } :=
    (hvalue.append
      (.textMember "value_type" (fun x (e : Document) => { e with valueType := x }) d.valueType
        rfl rfl)).append
      (.textMember "check" (fun x (e : Document) => { e with checker := x }) d.checker rfl rfl)
  have hrevision : Reader.Fills fields (depth + 1) {} _
      { id := d.id, labelFormat := d.labelFormat, key := d.key, value := d.value,
        valueType := d.valueType, checker := d.checker, createRevision := d.createRevision,
        updateRevision := d.updateRevision } :=
    (hchecker.append (.numberMember "create_revision"
        (fun x (e : Document) => { e with createRevision := x }) d.createRevision rfl rfl)).append
      (.numberMember "update_revision"
        (fun x (e : Document) => { e with updateRevision := x }) d.updateRevision rfl rfl)
  have hstatus : Reader.Fills fields (depth + 1) {} _
      { d with createTime := 0, updateTime := 0, labels := .empty, domain := "" } :=
    (hrevision.append
      (.textMember "project" (fun x (e : Document) => { e with project := x }) d.project
        rfl rfl)).append
      (.textMember "status" (fun x (e : Document) => { e with status := x }) d.status rfl rfl)
  have htime : Reader.Fills fields (depth + 1) {} _ { d with labels := .empty, domain := "" } :=
    (hstatus.append
      (.numberMember "create_time" (fun x (e : Document) => { e with createTime := x }) d.createTime
        rfl rfl)).append
      (.numberMember "update_time" (fun x (e : Document) => { e with updateTime := x }) d.updateTime
        rfl rfl)
  -- Labels may also be read from `null`, but what is written for them is an object.
  have hread : Reader.nullAs .empty (Reader.dict Reader.text) (depth + 1)
      (Value.ofDict .string d.labels).reading = .ok d.labels :=
    Reader.dict_reading fun p _ => Reader.text_reading depth p.2
  have hlabels : Reader.Fills fields (depth + 1) {} _ { d with domain := "" } :=
    htime.append (.dictMember "labels" .string (fun x (e : Document) => { e with labels := x })
      d.labels rfl hread rfl)
  exact hlabels.append
    (.textMember "domain" (fun x (e : Document) => { e with domain := x }) d.domain rfl rfl)

theorem key_mem_members (d : Document) : "key" ∈ d.members.map (·.1) := by
  simp [members]

/-- Nothing but the key must be there. -/
theorem name_of_required {field : RecordField Document} (hfield : field ∈ fields)
    (hrequired : field.required = true) : field.name = "key" := by
  have hall : (fields.all fun field => !field.required || field.name = "key") = true := by decide
  have := List.all_eq_true.mp hall field hfield
  simpa [hrequired] using this

/-- A document is read back wherever two containers may be stepped into: itself and its labels. -/
theorem reader_reading (d : Document) (depth : Nat) :
    reader (depth + 2) d.toJson.reading = .ok d := by
  refine Reader.record_of_fills (fills_members d depth) (nodup_members d) fun field hfield hr => ?_
  rw [name_of_required hfield hr]
  exact key_mem_members d

/-- A document that was written is read back. -/
theorem decode_encode (d : Document) : decode d.encode = .ok d :=
  Reader.run_encode (plain_toJson d) (reader_reading d 125)

end Document

/-! ## Pages -/

namespace Listing

theorem plain_toJson {l : Listing} (htotal : l.total < UInt64.size) : l.toJson.Plain := by
  have hlow : Int64.minValue.toInt ≤ 0 := by decide
  have hmax : maxDigits = UInt64.size - 1 := rfl
  have hdata : Value.PlainItems (l.data.map Document.toJson) := by
    rw [Value.plainItems_iff]
    intro v hv
    obtain ⟨d, -, rfl⟩ := List.mem_map.mp hv
    exact Document.plain_toJson d
  exact ⟨⟨by omega, by omega⟩, hdata, trivial⟩

/-- A page that was written is read back. -/
theorem decode_encode {l : Listing} (htotal : l.total < UInt64.size) :
    decode l.toJson.encode = .ok l := by
  have hfills : Reader.Fills fields 126 {}
      [("total", .int l.total), ("data", .array (l.data.map Document.toJson))] l :=
    (Reader.Fills.member "total" (fun x (m : Listing) => { m with total := x }) rfl
      (Reader.natural_reading 126 (Nat.le_pred_of_lt htotal) (Nat.le_refl _))).append
      (.member "data" (fun x (m : Listing) => { m with data := x }) rfl
        (Reader.list_reading fun d _ => Document.reader_reading d 123))
  exact Reader.run_encode (plain_toJson htotal)
    (Reader.record_of_fills hfills (by simp) (by simp [fields, RecordField.optional]))

/-- The total of a page that was read is a number of 64 bits. -/
theorem total_lt_of_decode {text : Bytes} {l : Listing} (h : decode text = .ok l) :
    l.total < UInt64.size := by
  obtain ⟨r, hread⟩ := Reader.ok_of_run h
  have hfields : ∀ field ∈ fields, ∀ r set, field.read 126 r = .ok set →
      ∀ m : Listing, m.total ≤ UInt64.size - 1 → (set m).total ≤ UInt64.size - 1 := by
    intro field hfield r set hset m hm
    simp only [fields, List.mem_cons, List.not_mem_nil, or_false] at hfield
    rcases hfield with rfl | rfl <;> obtain ⟨x, hx, rfl⟩ := Reader.ok_of_map hset
    · exact Reader.natural_le hx
    · exact hm
  exact Nat.lt_of_le_pred (by decide) (Reader.record_keeps hfields hread (Nat.zero_le _))

end Listing

end ConfigStore
