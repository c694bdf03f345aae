import Workbench.Proofs.Json.Canonical
import Workbench.Proofs.Json.RoundTrip
import Workbench.Proofs.Wire.Oversized

/-!
# Proofs/Wire/RoundTrip — messages survive the wire

A message is written member by member, and its form is found again by trying one after the other: no
form has all members that a form tried before it needs (`ofJson?_toJson`).  With the text of the
object read back and the frame around it, a message comes out as it went in
(`Sendable.readMessage_frame`).
-/

namespace Workbench

/-- What a message may carry: a value that is not null, whose numbers are integers within 64 bits,
with the keys of its objects in order, as they are kept of all that is read. -/
structure Json.Payload (v : Json) : Prop where
  notNull : v ≠ .null
  exact : v.Exact
  canonical : v.Canonical

/-- What may be said: the numbers within 64 bits, and nothing carried but payloads. -/
def Content.Sendable : Content → Prop
  | .response requestSeq _ _ _ body => requestSeq < 2 ^ 64 ∧ ∀ v ∈ body, v.Payload
  | .event _ body => ∀ v ∈ body, v.Payload
  | .request _ arguments => ∀ v ∈ arguments, v.Payload

namespace Message

/-- A message that can be sent: it fits in a frame, and is not nested too deeply to be read. -/
structure Sendable (m : Message) : Prop where
  seq : m.seq < 2 ^ 64
  content : m.content.Sendable
  depth : m.toJson.depth < 128
  size : Text.bytes m.toJson.print ≤ maxBody

variable {m : Message} {key : Text} {members : Json.Members} {value : Option Json}

/-! ## Members -/

/-- The members of a key. -/
def under (key : Text) (members : Json.Members) : Json.Members :=
  members.filter fun member => member.1 = key

theorem filter_eq_under (key : Text) (members : Json.Members) :
    (members.filter fun (k, _) => k = key) = under key members := rfl

@[simp] theorem under_nil (key : Text) : under key [] = [] := rfl

/-- Members of a key are found in their order, whatever stands between them. -/
@[simp] theorem under_append (key : Text) (before behind : Json.Members) :
    under key (before ++ behind) = under key before ++ under key behind :=
  List.filter_append _ _

@[simp] theorem under_cons_of_ne {k : Text} {v : Json} (h : k ≠ key) :
    under key ((k, v) :: members) = under key members :=
  List.filter_cons_of_neg (by simpa using h)

@[simp] theorem under_cons_self (v : Json) :
    under key ((key, v) :: members) = (key, v) :: under key members :=
  List.filter_cons_of_pos (by simp)

@[simp] theorem under_optionalMember_of_ne {k : Text} (h : k ≠ key) (value : Option Json) :
    under key (optionalMember k value) = [] := by
  cases value with
  | none => rfl
  | some v => exact under_cons_of_ne h

/-- A member that may be left out is found under its key, if it is there. -/
@[simp] theorem under_optionalMember_self (key : Text) (value : Option Json) :
    under key (optionalMember key value) = optionalMember key value := by
  cases value with
  | none => rfl
  | some v => exact under_cons_self v

/-- A member that must be there is read if it is there once. -/
theorem required_of_under {v : Json} (h : under key members = [(key, v)]) :
    required key members = some v := by rw [required, filter_eq_under, h]

/-- A member that must be there is missed if it is not. -/
theorem required_of_under_nil (h : under key members = []) : required key members = none := by
  rw [required, filter_eq_under, h]

/-- A member that may be left out is read as it was written: null would be read as nothing. -/
theorem optional_of_under (h : under key members = optionalMember key value)
    (hnull : ∀ v ∈ value, v ≠ .null) : optional key members = some value := by
  rw [optional, filter_eq_under, h]
  cases value with
  | none => rfl
  | some v =>
    have hv := hnull v rfl
    cases v <;> first | rfl | exact absurd rfl hv

/-- A payload is in the form in which values are kept, so it is read as it was written. -/
theorem optionalValue_of_under (h : under key members = optionalMember key value)
    (hpayload : ∀ v ∈ value, v.Payload) : optionalValue key members = some value := by
  rw [optionalValue, optional_of_under h fun v hv => (hpayload v hv).notNull, Option.map_some]
  cases value with
  | none => rfl
  | some v => rw [Option.map_some, (hpayload v rfl).canonical.sorted_eq]

theorem optionalText_of_under {text : Option Text}
    (h : under key members = optionalMember key (text.map .string)) :
    optionalText key members = some text := by
  rw [optionalText, optional_of_under h (by simp)]
  cases text <;> rfl

/-! ## The form of a message -/

/-- The members of a message that says something. -/
def headed (seq : Nat) (type : Text) (content : Content) : Json.Members :=
  ("seq", .ofNat seq) :: ("type", .string type) :: contentMembers content

variable {seq requestSeq : Nat} {type name : Text} {success : Bool} {message : Option Text}
  {body : Option Json}

/-- A response is read as what it says. -/
theorem asResponse?_response (h : ∀ v ∈ body, v.Payload) :
    asResponse? (headed seq type (.response requestSeq success name message body)) =
      some (.response requestSeq success name message body) := by
  set members := headed seq type (.response requestSeq success name message body)
    with hmembers
  have hseq : required "request_seq" members = some (.ofNat requestSeq) :=
    required_of_under (by simp [hmembers, headed, contentMembers])
  have hsuccess : required "success" members = some (.bool success) :=
    required_of_under (by simp [hmembers, headed, contentMembers])
  have hcommand : required "command" members = some (.string name) :=
    required_of_under (by simp [hmembers, headed, contentMembers])
  have hmessage : optionalText "message" members = some message :=
    optionalText_of_under (by simp [hmembers, headed, contentMembers])
  have hbody : optionalValue "body" members = some body :=
    optionalValue_of_under (by simp [hmembers, headed, contentMembers]) h
  rw [asResponse?, hseq, hsuccess, hcommand, hmessage, hbody]
  rfl

/-- An event is no response: it does not say what it responds to. -/
theorem asResponse?_event : asResponse? (headed seq type (.event name body)) = none := by
  have hseq : required "request_seq" (headed seq type (.event name body)) = none :=
    required_of_under_nil (by simp [headed, contentMembers])
  rw [asResponse?, hseq]
  rfl

/-- A request is no response either, for the same reason. -/
theorem asResponse?_request : asResponse? (headed seq type (.request name body)) = none := by
  have hseq : required "request_seq" (headed seq type (.request name body)) = none :=
    required_of_under_nil (by simp [headed, contentMembers])
  rw [asResponse?, hseq]
  rfl

/-- An event is read as what it says. -/
theorem asEvent?_event (h : ∀ v ∈ body, v.Payload) :
    asEvent? (headed seq type (.event name body)) = some (.event name body) := by
  have hname : required "event" (headed seq type (.event name body)) = some (.string name) :=
    required_of_under (by simp [headed, contentMembers])
  have hbody : optionalValue "body" (headed seq type (.event name body)) = some body :=
    optionalValue_of_under (by simp [headed, contentMembers]) h
  rw [asEvent?, hname, hbody]
  rfl

/-- A request is no event: it does not name one. -/
theorem asEvent?_request : asEvent? (headed seq type (.request name body)) = none := by
  have hname : required "event" (headed seq type (.request name body)) = none :=
    required_of_under_nil (by simp [headed, contentMembers])
  rw [asEvent?, hname]
  rfl

/-- A request is read as what it says. -/
theorem asRequest?_request (h : ∀ v ∈ body, v.Payload) :
    asRequest? (headed seq type (.request name body)) = some (.request name body) := by
  have hname : required "command" (headed seq type (.request name body)) = some (.string name) :=
    required_of_under (by simp [headed, contentMembers])
  have harguments : optionalValue "arguments" (headed seq type (.request name body)) = some body :=
    optionalValue_of_under (by simp [headed, contentMembers]) h
  rw [asRequest?, hname, harguments]
  rfl

/-- **What is said is found again**, in the form in which it was said. -/
theorem readContent_headed {content : Content} (h : content.Sendable) :
    readContent (headed seq type content) = some content := by
  cases content with
  | response =>
    rw [readContent, asResponse?_response h.2]
    rfl
  | event =>
    rw [readContent, asResponse?_event, asEvent?_event h]
    rfl
  | request =>
    rw [readContent, asResponse?_request, asEvent?_request, asRequest?_request h]
    rfl

/-- **A message is found again** in the object that it is written as. -/
theorem ofJson?_toJson (h : m.content.Sendable) : ofJson? m.toJson = some m := by
  set members := headed m.seq m.type m.content with hmembers
  have hseq : required "seq" members = some (.ofNat m.seq) := by
    refine required_of_under ?_
    cases hcontent : m.content <;> simp [hmembers, hcontent, headed, contentMembers]
  have htype : required "type" members = some (.string m.type) := by
    refine required_of_under ?_
    cases hcontent : m.content <;> simp [hmembers, hcontent, headed, contentMembers]
  have hjson : m.toJson = .object members := rfl
  rw [hjson, ofJson?, hseq, htype, readContent_headed h]
  rfl

/-! ## Frames -/

theorem exact_of_mem_optionalMember (h : ∀ v ∈ value, v.Exact) :
    ∀ member ∈ optionalMember key value, member.2.Exact := by
  intro member hmember
  obtain ⟨v, hv, rfl⟩ := List.mem_map.mp hmember
  exact h v (Option.mem_toList.mp hv)

/-- The object of a message holds no numbers but integers within 64 bits. -/
theorem exact_toJson (hseq : m.seq < 2 ^ 64) (h : m.content.Sendable) : m.toJson.Exact := by
  obtain ⟨seq, type, content⟩ := m
  refine .object (List.forall_mem_cons.mpr ⟨.number (.natural hseq),
    List.forall_mem_cons.mpr ⟨.string _, ?_⟩⟩)
  cases content with
  | response requestSeq success name message body =>
    obtain ⟨hrequest, hbody⟩ := h
    refine List.forall_mem_cons.mpr ⟨.number (.natural hrequest),
      List.forall_mem_cons.mpr ⟨.bool _, List.forall_mem_cons.mpr ⟨.string _,
        List.forall_mem_append.mpr ⟨?_, ?_⟩⟩⟩⟩
    · refine exact_of_mem_optionalMember fun v hv => ?_
      obtain ⟨text, -, rfl⟩ := Option.map_eq_some_iff.mp hv
      exact .string text
    · exact exact_of_mem_optionalMember fun v hv => (hbody v hv).exact
  | event name body =>
    exact List.forall_mem_cons.mpr ⟨.string _, exact_of_mem_optionalMember fun v hv => (h v hv).exact⟩
  | request name body =>
    exact List.forall_mem_cons.mpr ⟨.string _, exact_of_mem_optionalMember fun v hv => (h v hv).exact⟩

/-- A message is sent as the frame of its body. -/
theorem encode_frame (m : Message) (h : (Text.encode m.toJson.print).length ≤ maxBody) :
    Text.encode m.frame = (Wire.Frame.ofBody (Text.encode m.toJson.print) h).bytes := by
  have hfull : (Wire.Frame.ofBody (Text.encode m.toJson.print) h).full =
      lengthMark ++ " " ++ Text.ofNat (Text.bytes m.toJson.print) ++ "\r\n\r\n" := by
    rw [← Text.length_encode]
    exact Wire.Header.full_ofLength _
  have hbody : (Wire.Frame.ofBody (Text.encode m.toJson.print) h).body =
      Text.encode m.toJson.print := rfl
  rw [Wire.Frame.bytes, hfull, hbody, ← Text.encode_append]
  rfl

/-- The body of a message is read back as the message. -/
theorem Sendable.decode (h : m.Sendable) : decode (Text.encode m.toJson.print) = .ok m := by
  have hread : Json.read? m.toJson.print = some m.toJson :=
    (exact_toJson h.seq h.content).read?_print (Nat.le_of_lt_succ h.depth)
  rw [Message.decode, Text.decode_encode, Option.bind_some, hread, Option.bind_some,
    ofJson?_toJson h.content]

/-- **A message survives the wire**: what is read from its frame is the message, and nothing behind
the frame is touched. -/
theorem Sendable.readMessage_frame (h : m.Sendable) (rest : Bytes) :
    readMessage (Text.encode m.frame ++ rest) = some (.ok m, rest) := by
  have hsize : (Text.encode m.toJson.print).length ≤ maxBody := by
    rw [Text.length_encode]
    exact h.size
  have hread := (Wire.Frame.ofBody (Text.encode m.toJson.print) hsize).readMessage_bytes
    unmarked_nil rest
  rw [Text.encode_nil, List.nil_append, ← m.encode_frame hsize] at hread
  rw [hread]
  exact congrArg (fun result => some (result, rest)) h.decode

/-- **A stream of messages** is read to its end, message by message. -/
theorem readMessages_frames {messages : List Message} (h : ∀ m ∈ messages, m.Sendable) :
    readMessages (messages.flatMap fun m => Text.encode m.frame) = messages.map .ok := by
  induction messages with
  | nil => rw [List.flatMap_nil, readMessages, List.map_nil]
  | cons m messages ih =>
    obtain ⟨hm, hmessages⟩ := List.forall_mem_cons.mp h
    rw [List.flatMap_cons, Wire.readMessages_cons (hm.readMessage_frame _) (by simp), ih hmessages,
      List.map_cons]

/-- The size is no idle bound: a message that is too long for a frame can be written, but whoever
reads it finds a fault, and passes over it. -/
theorem readMessage_frame_of_long (m : Message) (h : maxBody < Text.bytes m.toJson.print)
    (h' : Text.bytes m.toJson.print < 2 ^ 64) (rest : Bytes) :
    readMessage (Text.encode m.frame ++ rest) =
      some (.error (Wire.Oversized.ofLength _ h' h).fault, rest) := by
  set header := Wire.Oversized.ofLength (Text.bytes m.toJson.print) h' h with hheader
  have hframe : Text.encode m.frame = Text.encode header.full ++ Text.encode m.toJson.print := by
    have hfull : header.full =
        lengthMark ++ " " ++ Text.ofNat (Text.bytes m.toJson.print) ++ "\r\n\r\n" :=
      Wire.Header.full_ofLength _
    rw [hfull, ← Text.encode_append]
    rfl
  have hlength : header.length = (Text.encode m.toJson.print).length := (Text.length_encode _).symm
  rw [hframe, List.append_assoc, header.readMessage_full, hlength, List.drop_left]

end Message
end Workbench
