import ConfigStore.Document.Format

/-!
# Polling records

A polling record tells of one request by which a client asked for configuration: who asked, from
where, for what, and what it was given.

* `PollingRecord` is the type; `PollingRecord.toJson` and `PollingRecord.decode` are its JSON form.
* `PollingRecord.answers` compares a record with the record of what is looked for.
-/

namespace ConfigStore

open Json

/-- One request for configuration. -/
structure PollingRecord where
  /-- The name of the record. -/
  id : String := ""
  /-- The session of the client. -/
  sessionId : String := ""
  /-- The domain asked for. -/
  domain : String := ""
  /-- The project asked for. -/
  project : String := ""
  /-- The revision the client had. -/
  revision : String := ""
  /-- What the client sent. -/
  pollingData : Dict Value := .empty
  /-- The address of the client. -/
  ip : String := ""
  /-- The program of the client. -/
  userAgent : String := ""
  /-- The path that was asked for. -/
  urlPath : String := ""
  /-- The documents given in answer. -/
  responseBody : List Document := []
  /-- The header of the answer. -/
  responseHeader : Dict (List String) := .empty
  /-- The code of the answer. -/
  responseCode : UInt16 := 0
  deriving Inhabited

namespace PollingRecord

/-- The record as a JSON object. Everything that is empty is left out, except the code. -/
def toJson (r : PollingRecord) : Value :=
  .object (
    Value.textMember "id" r.id ++
    Value.textMember "session_id" r.sessionId ++
    Value.textMember "domain" r.domain ++
    Value.textMember "project" r.project ++
    Value.textMember "revision" r.revision ++
    Value.dictMember "polling_data" (fun v => v) r.pollingData ++
    Value.textMember "ip" r.ip ++
    Value.textMember "user_agent" r.userAgent ++
    Value.textMember "url_path" r.urlPath ++
    (if r.responseBody.isEmpty then []
      else [("kv", .array (r.responseBody.map Document.toJson))]) ++
    Value.dictMember "response_header" (fun values => .array (values.map .string))
      r.responseHeader ++
    [("response_code", .int r.responseCode.toNat)])

/-- The fields of a record, in the order in which they are written. -/
def fields : List (RecordField PollingRecord) := [
  .optional "id" Reader.text fun x r => { r with id := x },
  .optional "session_id" Reader.text fun x r => { r with sessionId := x },
  .optional "domain" Reader.text fun x r => { r with domain := x },
  .optional "project" Reader.text fun x r => { r with project := x },
  .optional "revision" Reader.text fun x r => { r with revision := x },
  .optional "polling_data" (Reader.dict Reader.value) fun x r => { r with pollingData := x },
  .optional "ip" Reader.text fun x r => { r with ip := x },
  .optional "user_agent" Reader.text fun x r => { r with userAgent := x },
  .optional "url_path" Reader.text fun x r => { r with urlPath := x },
  .optional "kv" (Reader.list Document.reader) fun x r => { r with responseBody := x },
  .optional "response_header" (Reader.dict (Reader.list Reader.text))
    fun x r => { r with responseHeader := x },
  .optional "response_code" (Reader.natural (UInt16.size - 1))
    fun x r => { r with responseCode := x.toUInt16 }]

/-- The bytes of a record. -/
def encode (r : PollingRecord) : Bytes := r.toJson.encode

/-- Reads a record from bytes. -/
def decode (bytes : Bytes) : Except Fault PollingRecord := (Reader.record fields {}).run bytes

/-- Whether a record has every text that `wanted` has; a text that is empty in `wanted` asks for
nothing. -/
def answers (r wanted : PollingRecord) : Bool :=
  let same (want got : String) : Bool := want == "" || want == got
  same wanted.sessionId r.sessionId
    && same wanted.ip r.ip
    && same wanted.userAgent r.userAgent
    && same wanted.urlPath r.urlPath
    && same wanted.revision r.revision

end PollingRecord

end ConfigStore
