import ConfigStore.Polling.Record
import ConfigStore.Proofs.Document.RoundTrip

/-!
# Polling records that are written and read back

A polling record keeps what a client sent, which may be any JSON value. It is read back if its
numbers are integers of 64 bits and if it nests no deeper than a text may; a text that nests deeper
is not read at all.

* `PollingRecord.Writable` says which records are meant, `PollingRecord.decode_encode` is the round
  trip.
* `PollingRecord.legible_of_decode` says that what was read can be written, and
  `PollingRecord.decode_ne_document` that no text of a record is read as a document.
* `decode_undoes_encode` is the round trip of everything that is written: documents, pages and
  polling records.
-/

namespace ConfigStore

open Json

namespace PollingRecord

/-- The members of a record. -/
def members (r : PollingRecord) : List (String × Value) :=
  Value.textMember "id" r.id ++
  Value.textMember "session_id" r.sessionId ++
  Value.textMember "domain" r.domain ++
  Value.textMember "project" r.project ++
  Value.textMember "revision" r.revision ++
  Value.dictMember "polling_data" (fun v => v) r.pollingData ++
  Value.textMember "ip" r.ip ++
  Value.textMember "user_agent" r.userAgent ++
  Value.textMember "url_path" r.urlPath ++
  (if r.responseBody.isEmpty then []
    else [("kv", .array (r.responseBody.map Document.toJson))]) ++
  Value.dictMember "response_header" (fun values => .array (values.map .string))
    r.responseHeader ++
  [("response_code", .int r.responseCode.toNat)]

theorem toJson_eq (r : PollingRecord) : r.toJson = .object r.members := rfl

/-- What the client sent holds no number but integers of 64 bits. -/
def Integral (r : PollingRecord) : Prop := ∀ p ∈ r.pollingData.pairs, p.2.Plain

theorem plain_toJson {r : PollingRecord} (h : r.Integral) : r.toJson.Plain := by
  have hdata := Value.plainMembers_dictMember (fun v => v) "polling_data" h
  have hbody : Value.PlainItems (r.responseBody.map Document.toJson) := by
    rw [Value.plainItems_iff]
    intro v hv
    obtain ⟨d, -, rfl⟩ := List.mem_map.mp hv
    exact d.plain_toJson
  have hkv := Value.plainMembers_unless (c := r.responseBody.isEmpty) "kv"
    (v := .array (r.responseBody.map Document.toJson)) hbody
  have hheader := Value.plainMembers_dictMember (fun values => .array (values.map .string))
    "response_header" (d := r.responseHeader) fun p _ => Value.plainItems_iff.mpr fun v hv => by
      obtain ⟨s, -, rfl⟩ := List.mem_map.mp hv
      trivial
  have hcode : Fits r.responseCode.toNat := by
    have hlow : Int64.minValue.toInt ≤ 0 := by decide
    have hhigh := r.responseCode.toNat_lt
    have hmax : maxDigits = 18446744073709551615 := rfl
    exact ⟨by omega, by omega⟩
  rw [toJson_eq, Value.Plain, members]
  simp only [Value.plainMembers_append, Value.plainMembers_textMember, hdata, hkv, hheader,
    and_self, true_and]
  exact ⟨hcode, trivial⟩

/-- The members of a record have the names of its fields, in their order. -/
theorem names_members (r : PollingRecord) :
    (r.members.map (·.1)).Sublist (fields.map (·.name)) := by
  simp only [members, List.map_append]
  exact (((((((((((Value.names_textMember _ _).append (Value.names_textMember _ _)).append
    (Value.names_textMember _ _)).append (Value.names_textMember _ _)).append
    (Value.names_textMember _ _)).append (Value.names_dictMember _ _ _)).append
    (Value.names_textMember _ _)).append (Value.names_textMember _ _)).append
    (Value.names_textMember _ _)).append (Value.names_unless _ _)).append
    (Value.names_dictMember _ _ _)).append (List.Sublist.refl ["response_code"])

/-- The members of a record have different names. -/
theorem nodup_members (r : PollingRecord) : (r.members.map (·.1)).Nodup :=
  r.names_members.nodup (by decide)

/-- No record is read as a document, for it has no key. -/
theorem decode_ne_document {r : PollingRecord} (h : r.Integral) (d : Document) :
    Document.decode r.encode ≠ .ok d := by
  intro hdecode
  have hread := Reader.reading_of_run_encode (plain_toJson h) hdecode
  obtain ⟨field, hfield, hrequired, hname⟩ :
      ∃ field ∈ Document.fields, field.required = true ∧ field.name = "key" :=
    ⟨_, .tail _ (.tail _ (.head _)), rfl, rfl⟩
  refine Reader.record_lacks hfield hrequired (fun hmem => ?_) hread
  have hlisted := r.names_members.subset (hname ▸ hmem)
  revert hlisted
  decide

/-- The data of the client is in order, and is read where `depth` containers may be stepped into. -/
def Legible (depth : Nat) (r : PollingRecord) : Prop :=
  ∀ p ∈ r.pollingData.pairs, Reader.Sound depth p.2

/-- The members of a record fill its fields. -/
theorem fills_members {r : PollingRecord} (hintegral : r.Integral) {depth : Nat}
    (hlegible : r.Legible (depth + 2)) : Reader.Fills fields (depth + 3) {} r.members r := by
  have hrevision : Reader.Fills fields (depth + 3) {} _
      { id := r.id, sessionId := r.sessionId, domain := r.domain, project := r.project,
        revision := r.revision } :=
    ((((Reader.Fills.textMember "id" (fun x (e : PollingRecord) => { e with id := x }) r.id
      rfl rfl).append
      (.textMember "session_id" (fun x (e : PollingRecord) => { e with sessionId := x })
        r.sessionId rfl rfl)).append
      (.textMember "domain" (fun x (e : PollingRecord) => { e with domain := x }) r.domain
        rfl rfl)).append
      (.textMember "project" (fun x (e : PollingRecord) => { e with project := x }) r.project
        rfl rfl)).append
      (.textMember "revision" (fun x (e : PollingRecord) => { e with revision := x }) r.revision
        rfl rfl)
  have hdata : Reader.dict Reader.value (depth + 3)
      (Value.ofDict (fun v => v) r.pollingData).reading = .ok r.pollingData :=
    Reader.dict_reading fun p hp =>
      Reader.value_reading p.2 (hintegral p hp) (hlegible p hp).1 (hlegible p hp).2
  have hpath : Reader.Fills fields (depth + 3) {} _
      { r with responseBody := [], responseHeader := .empty, responseCode := 0 } :=
    (((hrevision.append
      (.dictMember "polling_data" (fun v => v)
        (fun x (e : PollingRecord) => { e with pollingData := x }) r.pollingData rfl hdata
        rfl)).append
      (.textMember "ip" (fun x (e : PollingRecord) => { e with ip := x }) r.ip rfl rfl)).append
      (.textMember "user_agent" (fun x (e : PollingRecord) => { e with userAgent := x })
        r.userAgent rfl rfl)).append
      (.textMember "url_path" (fun x (e : PollingRecord) => { e with urlPath := x }) r.urlPath
        rfl rfl)
  have hbody : Reader.list Document.reader (depth + 3)
      (Value.array (r.responseBody.map Document.toJson)).reading = .ok r.responseBody :=
    Reader.list_reading fun d _ => d.reader_reading depth
  have hkv : Reader.Fills fields (depth + 3) {} _
      { r with responseHeader := .empty, responseCode := 0 } :=
    hpath.append (.unless (c := r.responseBody.isEmpty)
      (.member "kv" (fun x (e : PollingRecord) => { e with responseBody := x }) rfl hbody)
      fun hempty => by rw [List.isEmpty_iff.mp hempty])
  have hheader : Reader.dict (Reader.list Reader.text) (depth + 3)
      (Value.ofDict (fun values => .array (values.map .string)) r.responseHeader).reading
        = .ok r.responseHeader :=
    Reader.dict_reading fun p _ => Reader.list_reading fun s _ => Reader.text_reading _ s
  have hcode : Reader.natural (UInt16.size - 1) (depth + 3)
      (Value.int r.responseCode.toNat).reading = .ok r.responseCode.toNat :=
    Reader.natural_reading _ (Nat.le_pred_of_lt r.responseCode.toNat_lt) (by decide)
  have hlast : Reader.Fills fields (depth + 3) { r with responseCode := 0 }
      [("response_code", .int r.responseCode.toNat)]
      { r with responseCode := r.responseCode.toNat.toUInt16 } :=
    .member "response_code" (fun x (e : PollingRecord) => { e with responseCode := x.toUInt16 })
      rfl hcode
  rw [Nat.toUInt16_eq, UInt16.ofNat_toNat] at hlast
  exact (hkv.append (.dictMember "response_header" (fun values => .array (values.map .string))
    (fun x (e : PollingRecord) => { e with responseHeader := x }) r.responseHeader rfl hheader
    rfl)).append hlast

/-- A record is read back if its data is. -/
theorem decode_encode_of_legible {r : PollingRecord} (hintegral : r.Integral)
    (hlegible : r.Legible (maxDepth - 2)) : decode r.encode = .ok r :=
  Reader.run_encode (plain_toJson hintegral)
    (Reader.record_of_fills (fills_members hintegral hlegible) (nodup_members r)
      (by simp [fields, RecordField.optional]))

/-! ### Records that can be kept -/

/-- What JSON can keep of a record: the data of the client holds no number but integers of 64 bits,
its objects are in the order of their names, and the record nests no deeper than can be read. -/
structure Writable (r : PollingRecord) : Prop where
  /-- Every number is an integer of 64 bits. -/
  integral : r.Integral
  /-- Every object is in the order of its names. -/
  canonical : ∀ p ∈ r.pollingData.pairs, p.2.Canonical
  /-- The record is not too deep. -/
  nesting_le : r.toJson.nesting ≤ maxDepth

/-- The data of the client stands two containers below the record. -/
theorem nesting_data (r : PollingRecord) {p : String × Value} (hp : p ∈ r.pollingData.pairs) :
    p.2.nesting + 2 ≤ r.toJson.nesting := by
  have hnot : ¬ r.pollingData.isEmpty = true := fun hempty => by
    rw [Dict.isEmpty, List.isEmpty_iff] at hempty
    exact absurd (hempty ▸ hp) List.not_mem_nil
  have hmember : ("polling_data", Value.ofDict (fun v => v) r.pollingData) ∈ r.members := by
    have hown : ("polling_data", Value.ofDict (fun v => v) r.pollingData)
        ∈ Value.dictMember "polling_data" (fun v => v) r.pollingData := by
      rw [Value.dictMember, if_neg hnot]
      exact List.mem_singleton.mpr rfl
    simp only [members, List.mem_append, hown, true_or, or_true]
  have hdata := Value.nestingMembers_le.mp (Nat.le_refl _) _ hmember
  have hvalue : p.2.nesting
      ≤ Value.nestingMembers (r.pollingData.pairs.map fun q => (q.1, q.2)) :=
    Value.nestingMembers_le.mp (Nat.le_refl _) _ (List.mem_map_of_mem (f := fun q => (q.1, q.2)) hp)
  rw [toJson_eq, Value.nesting]
  rw [Value.ofDict, Value.nesting] at hdata
  omega

/-- A record that was written is read back. -/
theorem decode_encode {r : PollingRecord} (h : r.Writable) : decode r.encode = .ok r :=
  decode_encode_of_legible h.integral fun p hp =>
    ⟨h.canonical p hp, by have := r.nesting_data hp; have := h.nesting_le; omega⟩

/-- The data of a record that was read is in order and not too deep. -/
theorem legible_of_decode {text : Bytes} {r : PollingRecord} (h : decode text = .ok r) :
    r.Legible (maxDepth - 2) := by
  obtain ⟨reading, hread⟩ := Reader.ok_of_run h
  have hnone : Legible (maxDepth - 2) {} := fun p hp => nomatch hp
  refine Reader.record_keeps (P := Legible (maxDepth - 2)) ?_ hread hnone
  intro field hfield reading set hset s hs
  simp only [fields, List.mem_cons, List.not_mem_nil, or_false] at hfield
  -- Only one field puts anything into the data of the client.
  rcases hfield with rfl | rfl | rfl | rfl | rfl | rfl | rfl | rfl | rfl | rfl | rfl | rfl <;>
    obtain ⟨x, hx, rfl⟩ := Reader.ok_of_map hset
  case inr.inr.inr.inr.inr.inl =>
    exact Reader.dict_keeps (fun reading v hv => Reader.sound_of_value hv) hx
  all_goals exact hs

/-- A record that was read is read back once it is written. -/
theorem decode_encode_of_decode {text : Bytes} {r : PollingRecord} (h : decode text = .ok r)
    (hintegral : r.Integral) : decode r.encode = .ok r :=
  decode_encode_of_legible hintegral (legible_of_decode h)

end PollingRecord

/-! ## Everything that is written -/

/-- The text of `a` is read as `a`, so it is written again as it stands. -/
structure Restores {α : Type} (encode : α → Bytes) (decode : Bytes → Except Fault α) (a : α) :
    Prop where
  /-- What is read is what was written. -/
  reads : decode (encode a) = .ok a
  /-- What is written next is the text that was read. -/
  rewrites : (decode (encode a)).map encode = .ok (encode a)

theorem Restores.of_reads {α : Type} {encode : α → Bytes} {decode : Bytes → Except Fault α} {a : α}
    (h : decode (encode a) = .ok a) : Restores encode decode a :=
  ⟨h, by rw [h]; rfl⟩

/-- Reading undoes writing. Every document is read back from its text, and so are every page whose
total is a number of 64 bits and every polling record that JSON can keep. What was read from any
text, whoever wrote it, is read back from the text that is written for it. -/
theorem decode_undoes_encode :
    (∀ d, Restores Document.encode Document.decode d) ∧
    (∀ l : Listing, l.total < UInt64.size → Restores (·.toJson.encode) Listing.decode l) ∧
    (∀ r : PollingRecord, r.Writable → Restores PollingRecord.encode PollingRecord.decode r) ∧
    (∀ text d, Document.decode text = .ok d → Restores Document.encode Document.decode d) ∧
    (∀ text l, Listing.decode text = .ok l → Restores (·.toJson.encode) Listing.decode l) ∧
    (∀ text r, PollingRecord.decode text = .ok r → r.Integral →
      Restores PollingRecord.encode PollingRecord.decode r) :=
  ⟨fun d => .of_reads d.decode_encode,
    fun _ htotal => .of_reads (Listing.decode_encode htotal),
    fun _ h => .of_reads (PollingRecord.decode_encode h),
    fun _ d _ => .of_reads d.decode_encode,
    fun _ _ h => .of_reads (Listing.decode_encode (Listing.total_lt_of_decode h)),
    fun _ _ h hintegral => .of_reads (PollingRecord.decode_encode_of_decode h hintegral)⟩

/-- A record of a client that sent `{"seen":[-1,{"at":18446744073709551615}]}`. -/
def PollingRecord.sample : PollingRecord where
  sessionId := "s1"
  pollingData := ⟨[("seen", .array [.int (-1), .object [("at", .int 18446744073709551615)]])],
    List.pairwise_singleton _ _⟩
  responseBody := [{ key := "timeout", labels := ⟨[("env", "prod")], List.pairwise_singleton _ _⟩ }]
  responseCode := 304

theorem PollingRecord.writable_sample : sample.Writable where
  integral := by
    intro p hp
    obtain rfl := List.mem_singleton.mp hp
    exact ⟨⟨by decide, by decide⟩, ⟨⟨by decide, by decide⟩, trivial⟩, trivial⟩
  canonical := by
    intro p hp
    obtain rfl := List.mem_singleton.mp hp
    exact ⟨trivial, ⟨List.pairwise_singleton _ _, trivial, trivial⟩, trivial⟩
  nesting_le := by decide

/-- A page with the greatest total there is. -/
def Listing.sample : Listing := ⟨18446744073709551615, [{ key := "timeout", value := "30" }]⟩

theorem decode_undoes_encode_sample :
    Restores (·.toJson.encode) Listing.decode Listing.sample ∧
    Restores PollingRecord.encode PollingRecord.decode PollingRecord.sample ∧
    (∃ text, Listing.decode text = .ok Listing.sample ∧
      Restores (·.toJson.encode) Listing.decode Listing.sample) ∧
    ∃ text, PollingRecord.decode text = .ok PollingRecord.sample ∧
      Restores PollingRecord.encode PollingRecord.decode PollingRecord.sample := by
  have hlisting := decode_undoes_encode.2.1 Listing.sample (by decide)
  have hrecord := decode_undoes_encode.2.2.1 _ PollingRecord.writable_sample
  exact ⟨hlisting, hrecord,
    ⟨_, hlisting.reads, decode_undoes_encode.2.2.2.2.1 _ _ hlisting.reads⟩,
    ⟨_, hrecord.reads, decode_undoes_encode.2.2.2.2.2 _ _ hrecord.reads
      PollingRecord.writable_sample.integral⟩⟩

end ConfigStore
