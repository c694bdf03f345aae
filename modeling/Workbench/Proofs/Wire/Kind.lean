import Workbench.Proofs.Wire.Conversation
import Workbench.Proofs.Wire.Oversized
import Workbench.Proofs.Wire.RoundTrip

/-!
# Proofs/Wire/Kind — the members decide what a message is

The type of a message is read and kept, and nothing is made of it.  An object is a response if its
members make one, else an event, else a request (`readContent_eq_request_iff`).  So a letter is
handled as a request exactly if its members ask for a call, whatever type they name, and any other
letter is passed over without a trace (`Wire.Letter.handled_iff`).
-/

namespace Workbench

namespace Message

variable {members : Json.Members} {key name : Text} {v : Json} {value arguments : Option Json}

/-! ## What is given for a key -/

/-- The key is given once, with this value. -/
def Given (key : Text) (value : Json) (members : Json.Members) : Prop :=
  under key members = [(key, value)]

/-- A key that may be left out: if it is, or if null is given for it, there is no value. -/
inductive Offered (key : Text) (members : Json.Members) : Option Json → Prop
  | absent : under key members = [] → Offered key members none
  | null : Given key .null members → Offered key members none
  | value {v : Json} : v ≠ .null → Given key v members → Offered key members (some v)

theorem given_of_under {k : Text} (h : under key members = [(k, v)]) : Given key v members := by
  have hmem : (k, v) ∈ under key members := h ▸ List.mem_singleton_self _
  obtain rfl : k = key := by simpa using (List.mem_filter.mp hmem).2
  exact h

/-- A member that must be there is read if it is given, once. -/
theorem required_eq_some_iff : required key members = some v ↔ Given key v members := by
  refine ⟨fun h => ?_, required_of_under⟩
  rw [required, filter_eq_under] at h
  split at h
  · next hunder =>
    obtain rfl := Option.some.inj h
    exact given_of_under hunder
  · cases h

/-- A member that may be left out is read if it is absent, null or given, once. -/
theorem optional_eq_some_iff : optional key members = some value ↔ Offered key members value := by
  constructor
  · intro h
    rw [optional, filter_eq_under] at h
    split at h
    · next hunder =>
      obtain rfl := Option.some.inj h
      exact .absent hunder
    · next hunder =>
      obtain rfl := Option.some.inj h
      exact .null (given_of_under hunder)
    · next hnull hunder =>
      obtain rfl := Option.some.inj h
      exact .value (fun h => hnull h) (given_of_under hunder)
    · cases h
  · rintro (h | h | ⟨hnull, h⟩)
    · rw [optional, filter_eq_under, h]
    · rw [optional, filter_eq_under, h]
    · exact optional_of_under h fun v hv => Option.some.inj hv ▸ hnull

theorem asNat_eq_some_iff {n : Nat} : asNat v = some n ↔ v = .ofNat n := by
  unfold asNat
  split <;> simp_all [Json.ofNat]

theorem asBool_eq_some_iff {b : Bool} : asBool v = some b ↔ v = .bool b := by
  cases v <;> simp [asBool]

theorem asText_eq_some_iff {t : Text} : asText v = some t ↔ v = .string t := by
  cases v <;> simp [asText]

/-- A text that may be left out has to be a text if it is given. -/
theorem optionalText_eq_some_iff {text : Option Text} :
    optionalText key members = some text ↔ Offered key members (text.map .string) := by
  rw [← optional_eq_some_iff, optionalText]
  split
  · simp_all
  · next h =>
    rw [h]
    cases text <;> simp
  · next v h =>
    rw [h]
    cases text <;> simp [asText_eq_some_iff]

theorem optionalValue_eq_some_iff : optionalValue key members = some arguments ↔
    ∃ value, Offered key members value ∧ value.map Json.sorted = arguments := by
  simp [optionalValue, Option.map_eq_some_iff, optional_eq_some_iff]

/-- Nothing is asked of a value that may be left out but that it is not repeated. -/
theorem exists_optionalValue_iff : (∃ value, optionalValue key members = some value) ↔
    (under key members).length ≤ 1 := by
  simp only [optionalValue_eq_some_iff]
  constructor
  · rintro ⟨_, _, h | h | ⟨_, h⟩, -⟩ <;> rw [h] <;> simp
  · intro h
    match hunder : under key members with
    | [] => exact ⟨_, _, .absent hunder, rfl⟩
    | [(k, v)] =>
      by_cases hnull : v = .null
      · exact ⟨_, _, .null (given_of_under (hnull ▸ hunder)), rfl⟩
      · exact ⟨_, _, .value hnull (given_of_under hunder), rfl⟩
    | _ :: _ :: _ => simp [hunder] at h

/-! ## The kinds of objects -/

/-- Members that make a response, whatever others there are. -/
structure IsResponse (members : Json.Members) : Prop where
  requestSeq : ∃ n, Given "request_seq" (.ofNat n) members
  success : ∃ b, Given "success" (.bool b) members
  command : ∃ t, Given "command" (.string t) members
  message : ∃ text : Option Text, Offered "message" members (text.map .string)
  body : (under "body" members).length ≤ 1

/-- Members that make an event, whatever others there are. -/
structure IsEvent (members : Json.Members) : Prop where
  event : ∃ t, Given "event" (.string t) members
  body : (under "body" members).length ≤ 1

/-- Members that ask for a call: they name its command and have a number and a type, and they make
neither a response nor an event. -/
structure AsksFor (members : Json.Members) (c : Call) : Prop where
  seq : Given "seq" (.ofNat c.seq) members
  type : ∃ type, Given "type" (.string type) members
  command : Given "command" (.string c.name) members
  arguments : ∃ value, Offered "arguments" members value ∧ value.map Json.sorted = c.arguments
  noResponse : ¬ IsResponse members
  noEvent : ¬ IsEvent members

/-- What is read as a response has its members. -/
theorem isSome_asResponse?_iff : (asResponse? members).isSome = true ↔ IsResponse members := by
  rw [Option.isSome_iff_exists]
  simp only [asResponse?, Option.bind_eq_bind, Option.bind_eq_some_iff, required_eq_some_iff,
    asNat_eq_some_iff, asBool_eq_some_iff, asText_eq_some_iff, optionalText_eq_some_iff,
    exists_eq_right, Option.pure_def, Option.some.injEq]
  constructor
  · rintro ⟨_, n, hseq, b, hsuccess, t, hcommand, text, hmessage, body, hbody, -⟩
    exact ⟨⟨n, hseq⟩, ⟨b, hsuccess⟩, ⟨t, hcommand⟩, ⟨text, hmessage⟩,
      exists_optionalValue_iff.mp ⟨body, hbody⟩⟩
  · rintro ⟨⟨n, hseq⟩, ⟨b, hsuccess⟩, ⟨t, hcommand⟩, ⟨text, hmessage⟩, hbody⟩
    obtain ⟨body, hbody⟩ := exists_optionalValue_iff.mpr hbody
    exact ⟨_, n, hseq, b, hsuccess, t, hcommand, text, hmessage, body, hbody, rfl⟩

/-- What is read as an event has its members. -/
theorem isSome_asEvent?_iff : (asEvent? members).isSome = true ↔ IsEvent members := by
  rw [Option.isSome_iff_exists]
  simp only [asEvent?, Option.bind_eq_bind, Option.bind_eq_some_iff, required_eq_some_iff,
    asText_eq_some_iff, exists_eq_right, Option.pure_def, Option.some.injEq]
  constructor
  · rintro ⟨_, t, hevent, body, hbody, -⟩
    exact ⟨⟨t, hevent⟩, exists_optionalValue_iff.mp ⟨body, hbody⟩⟩
  · rintro ⟨⟨t, hevent⟩, hbody⟩
    obtain ⟨body, hbody⟩ := exists_optionalValue_iff.mpr hbody
    exact ⟨_, t, hevent, body, hbody, rfl⟩

/-- What is read as a request has a command. -/
theorem asRequest?_eq_some_iff : asRequest? members = some (.request name arguments) ↔
    Given "command" (.string name) members ∧
      ∃ value, Offered "arguments" members value ∧ value.map Json.sorted = arguments := by
  simp only [asRequest?, Option.bind_eq_bind, Option.bind_eq_some_iff, required_eq_some_iff,
    asText_eq_some_iff, optionalValue_eq_some_iff, exists_eq_right, Option.pure_def,
    Option.some.injEq, Content.request.injEq]
  constructor
  · rintro ⟨_, hcommand, _, harguments, rfl, rfl⟩
    exact ⟨hcommand, harguments⟩
  · rintro ⟨hcommand, harguments⟩
    exact ⟨name, hcommand, arguments, harguments, rfl, rfl⟩

theorem asResponse?_ne_request : asResponse? members ≠ some (.request name arguments) := by
  intro h
  simp only [asResponse?, Option.bind_eq_bind, Option.bind_eq_some_iff, Option.pure_def] at h
  obtain ⟨_, -, _, -, _, -, _, -, _, -, h⟩ := h
  cases h

theorem asEvent?_ne_request : asEvent? members ≠ some (.request name arguments) := by
  intro h
  simp only [asEvent?, Option.bind_eq_bind, Option.bind_eq_some_iff, Option.pure_def] at h
  obtain ⟨_, -, _, -, h⟩ := h
  cases h

/-- **What is read as a request**: it makes neither a response nor an event. -/
theorem readContent_eq_request_iff : readContent members = some (.request name arguments) ↔
    ¬ IsResponse members ∧ ¬ IsEvent members ∧ Given "command" (.string name) members ∧
      ∃ value, Offered "arguments" members value ∧ value.map Json.sorted = arguments := by
  rw [← isSome_asResponse?_iff, ← isSome_asEvent?_iff, ← asRequest?_eq_some_iff, readContent]
  cases hresponse : asResponse? members with
  | some content =>
    exact iff_of_false (fun h => asResponse?_ne_request (hresponse.trans h)) fun h => h.1 rfl
  | none =>
    cases hevent : asEvent? members with
    | some content =>
      exact iff_of_false (fun h => asEvent?_ne_request (hevent.trans h)) fun h => h.2.1 rfl
    | none => simp

/-- **An object is read as a request** exactly if its members ask for the call. -/
theorem ofJson?_eq_request_iff {c : Call} :
    (∃ type, ofJson? (.object members) = some ⟨c.seq, type, .request c.name c.arguments⟩) ↔
      AsksFor members c := by
  simp only [ofJson?, Option.bind_eq_bind, Option.bind_eq_some_iff, required_eq_some_iff,
    asNat_eq_some_iff, asText_eq_some_iff, exists_eq_right, Option.pure_def, Option.some.injEq,
    Message.mk.injEq]
  constructor
  · rintro ⟨type, n, hseq, t, htype, content, hcontent, rfl, rfl, rfl⟩
    obtain ⟨hresponse, hevent, hcommand, harguments⟩ := readContent_eq_request_iff.mp hcontent
    exact ⟨hseq, ⟨t, htype⟩, hcommand, harguments, hresponse, hevent⟩
  · rintro ⟨hseq, ⟨type, htype⟩, hcommand, harguments, hresponse, hevent⟩
    exact ⟨type, c.seq, hseq, type, htype, _,
      readContent_eq_request_iff.mpr ⟨hresponse, hevent, hcommand, harguments⟩, rfl, rfl, rfl⟩

theorem decode_eq_ok_iff {body : Bytes} {m : Message} : decode body = .ok m ↔
    ∃ json, (Text.decode body).bind Json.read? = some json ∧ ofJson? json = some m := by
  rw [← Option.bind_eq_some_iff, decode]
  cases ((Text.decode body).bind Json.read?).bind ofJson? <;> simp

/-- A body is read as a request exactly if it holds an object whose members ask for the call. -/
theorem decode_eq_request_iff {body : Bytes} {c : Call} :
    (∃ type, decode body = .ok ⟨c.seq, type, .request c.name c.arguments⟩) ↔
      ∃ members, (Text.decode body).bind Json.read? = some (.object members) ∧
        AsksFor members c := by
  simp only [decode_eq_ok_iff, ← ofJson?_eq_request_iff]
  constructor
  · rintro ⟨type, json, hjson, hm⟩
    cases json with
    | object members => exact ⟨members, hjson, type, hm⟩
    | null | bool | number | string | array => cases hm
  · rintro ⟨members, hjson, type, hm⟩
    exact ⟨type, _, hjson, hm⟩

end Message

/-! ## Answers -/

/-- Whatever a request is replied, it is one exchange. -/
theorem Session.exchange_reply (s : Session) (c : Call) :
    Exchange ⟨c.seq, c.name⟩ ((s.reply c).contents c.seq c.name) := by
  obtain ⟨contents, v, hexchange, -, hstep⟩ :=
    (Server.mk s 0).step_request c.seq [] c.name c.arguments
  rw [Server.step_request_eq, Prod.mk.injEq] at hstep
  have hcontents := congrArg (List.map fun m => (m.type, m.content)) hstep.1
  rw [Server.map_content_number, Server.map_content_number] at hcontents
  exact hcontents ▸ hexchange

namespace Server

/-- The messages by which a server answers a call. -/
def answerTo (v : Server) (c : Call) : List Message :=
  number v.sent ((v.session.reply c).contents c.seq c.name)

/-- The server when it has answered a call. -/
def behind (v : Server) (c : Call) : Server :=
  ⟨v.session.attend c, v.sent + (v.answerTo c).length⟩

/-- A service that begins with a call: the call is answered, and what comes next is served from
there, unless the client has left. -/
def runFrom (v : Server) (c : Call) (received : List (Except Error Message)) :
    List Message × Server × Option Error :=
  if c.name = "disconnect" then (v.answerTo c, v.behind c, none)
  else (v.answerTo c ++ ((v.behind c).run received).1, ((v.behind c).run received).2)

variable (v : Server)

theorem run_request (c : Call) (type : Text) (received : List (Except Error Message)) :
    v.run (.ok ⟨c.seq, type, .request c.name c.arguments⟩ :: received) =
      v.runFrom c received := by
  rw [run, v.step_request_eq c, runFrom, behind, answerTo, length_number]
  by_cases hname : c.name = "disconnect"
  · rw [if_pos hname, if_pos hname]
  · rw [if_neg hname, if_neg hname]

/-- The answer comes before all else. -/
theorem answerTo_prefix (c : Call) (received : List (Except Error Message)) :
    v.answerTo c <+: (v.runFrom c received).1 := by
  rw [runFrom]
  split
  · exact List.prefix_refl _
  · exact List.prefix_append _ _

/-- Whatever is no request is passed over, and so is a body that cannot be read. -/
theorem run_of_not_request {body : Bytes}
    (h : ∀ (c : Call) type, Message.decode body ≠ .ok ⟨c.seq, type, .request c.name c.arguments⟩)
    (received : List (Except Error Message)) :
    v.run (Message.decode body :: received) = v.run received := by
  cases hbody : Message.decode body with
  | error fault =>
    obtain rfl : fault = .malformedJson := by
      rw [Message.decode] at hbody
      split at hbody
      · cases hbody
      · exact (Except.error.inj hbody).symm
    rfl
  | ok m =>
    obtain ⟨seq, type, content⟩ := m
    cases content with
    | request name arguments => exact absurd hbody (h ⟨seq, name, arguments⟩ type)
    | response | event => rfl

end Server

/-! ## Letters -/

namespace Wire

/-- A header and a body of the length that it announces, however long that is. -/
structure Letter extends Header where
  body : Bytes
  announces : toHeader.length? = some body.length

namespace Letter

variable {l : Letter} {c : Call}

/-- All bytes of a letter. -/
def bytes (l : Letter) : Bytes := Text.encode l.full ++ l.body

/-- What is received when a letter comes. -/
def result (l : Letter) : Except Error Message :=
  if h : l.body.length ≤ maxBody then Message.decode l.body
  else .error (Oversized.mk l.toHeader l.body.length l.announces (Nat.lt_of_not_le h)).fault

theorem readMessages_bytes (l : Letter) (rest : Bytes) :
    readMessages (l.bytes ++ rest) = l.result :: readMessages rest := by
  unfold result
  split
  · next h =>
    let frame : Frame := { l with fits := h }
    have hread := frame.readMessage_bytes unmarked_nil rest
    rw [Text.encode_nil, List.nil_append] at hread
    exact readMessages_cons hread (decode_ne_stream _)
  · next h =>
    have hread := (Oversized.mk l.toHeader l.body.length l.announces
      (Nat.lt_of_not_le h)).readMessage_full (l.body ++ rest)
    rw [List.drop_left, ← List.append_assoc] at hread
    exact readMessages_cons hread nofun

/-- A letter that asks for a call: it is not too long, and it holds an object whose members ask for
the call. -/
def AsksFor (l : Letter) (c : Call) : Prop :=
  l.body.length ≤ maxBody ∧ ∃ members,
    (Text.decode l.body).bind Json.read? = some (.object members) ∧ Message.AsksFor members c

/-- A letter that is handled as a request: wherever in a service it comes, the call is answered by
one response with its number. -/
def HandledAs (l : Letter) (c : Call) : Prop :=
  ∀ (v : Server) (rest : Bytes),
    Exchange ⟨c.seq, c.name⟩ ((v.answerTo c).map fun m => (m.type, m.content)) ∧
      v.run (readMessages (l.bytes ++ rest)) = v.runFrom c (readMessages rest)

/-- A letter that leaves no trace: wherever in a service it comes, nothing is sent because of it and
the session stays as it is. -/
def PassedOver (l : Letter) : Prop :=
  ∀ (v : Server) (rest : Bytes),
    v.run (readMessages (l.bytes ++ rest)) = v.run (readMessages rest)

theorem result_eq_request_iff :
    (∃ type, l.result = .ok ⟨c.seq, type, .request c.name c.arguments⟩) ↔ l.AsksFor c := by
  rw [AsksFor, ← Message.decode_eq_request_iff, result]
  split <;> simp [*]

theorem AsksFor.handledAs (h : l.AsksFor c) : l.HandledAs c := by
  obtain ⟨type, hresult⟩ := result_eq_request_iff.mpr h
  intro v rest
  refine ⟨?_, ?_⟩
  · rw [Server.answerTo, Server.map_content_number]
    exact v.session.exchange_reply c
  · rw [readMessages_bytes, hresult, v.run_request]

theorem passedOver_of_not (h : ¬ ∃ c, l.AsksFor c) : l.PassedOver := by
  intro v rest
  rw [readMessages_bytes]
  unfold result
  split
  · next hfits =>
    refine v.run_of_not_request (fun c type hdecode => h ⟨c, ?_⟩) _
    exact ⟨hfits, Message.decode_eq_request_iff.mp ⟨type, hdecode⟩⟩
  · rfl

/-- What is handled leaves a trace, for its answer is sent. -/
theorem HandledAs.not_passedOver (h : l.HandledAs c) : ¬ l.PassedOver := by
  intro hpassed
  let v : Server := { session := .new {} {} }
  obtain ⟨hexchange, hrun⟩ := h v []
  have hnone : (v.runFrom c (readMessages [])).1 = [] := by
    rw [← hrun, hpassed v [], readMessages]
    rfl
  have hanswer : v.answerTo c = [] :=
    List.prefix_nil.mp (hnone ▸ v.answerTo_prefix c (readMessages []))
  rw [hanswer] at hexchange
  cases hexchange

/-- **The members decide how a letter is handled**, and the type that they name does not: a letter
that asks for a call is handled as that request, and any other is passed over. -/
theorem handled_iff (l : Letter) :
    (∀ c, l.AsksFor c → l.HandledAs c) ∧
      ((∃ c, l.HandledAs c) ↔ ∃ c, l.AsksFor c) ∧
      (l.PassedOver ↔ ¬ ∃ c, l.AsksFor c) := by
  refine ⟨fun c => AsksFor.handledAs, ⟨?_, ?_⟩, ⟨?_, passedOver_of_not⟩⟩
  · rintro ⟨c, hhandled⟩
    by_contra h
    exact hhandled.not_passedOver (passedOver_of_not h)
  · rintro ⟨c, h⟩
    exact ⟨c, h.handledAs⟩
  · rintro hpassed ⟨c, h⟩
    exact h.handledAs.not_passedOver hpassed

/-- An object that calls itself an event is carried out as a request, and one that calls itself a
request is passed over, though either has a number, a type and a command. -/
theorem type_not_decisive :
    let start : Session := .new {} {}
    let event : Json.Members := [("seq", .ofNat 1), ("type", .string "event"),
      ("command", .string "edit"), ("arguments", .object [("text", .string "x")])]
    let edit := Frame.ofBody (Text.encode
      ("\x7b\"seq\":1,\"type\":\"event\",\"command\":\"edit\"," ++
        "\"arguments\":\x7b\"text\":\"x\"\x7d\x7d"))
      (Nat.le_trans (m := 128) (by decide) (by decide))
    let request : Json.Members := [("seq", .ofNat 1), ("type", .string "request"),
      ("command", .string "clear"), ("event", .string "x")]
    let clear := Frame.ofBody (Text.encode
      "\x7b\"seq\":1,\"type\":\"request\",\"command\":\"clear\",\"event\":\"x\"\x7d")
      (Nat.le_trans (m := 128) (by decide) (by decide))
    ((Text.decode edit.body).bind Json.read? = some (.object event) ∧
      Server.serve start edit.bytes =
        ([⟨1, "response", .response 1 true "edit" none none⟩], ⟨start.edit "x", 1⟩, none) ∧
      (start.edit "x").bench.source ≠ start.bench.source) ∧
    (Text.decode clear.body).bind Json.read? = some (.object request) ∧
      Server.serve start clear.bytes = ([], ⟨start, 0⟩, none) := by
  intro start event edit request clear
  have hreads (frame : Frame) :
      readMessages frame.bytes = [Message.decode frame.body] := by
    have hread := frame.readMessage_bytes unmarked_nil []
    rw [Text.encode_nil, List.nil_append, List.append_nil] at hread
    rw [readMessages_cons hread (decode_ne_stream _), readMessages]
  have hevent : (Text.decode edit.body).bind Json.read? = some (.object event) := by cbv
  have hrequest : (Text.decode clear.body).bind Json.read? = some (.object request) := by cbv
  have hedit : Message.decode edit.body =
      .ok ⟨1, "event", .request "edit" (some (.object [("text", .string "x")]))⟩ :=
    Message.decode_eq_ok_iff.mpr ⟨_, hevent, rfl⟩
  have hclear : Message.decode clear.body = .ok ⟨1, "request", .event "x" none⟩ :=
    Message.decode_eq_ok_iff.mpr ⟨_, hrequest, rfl⟩
  refine ⟨⟨hevent, ?_, by decide⟩, hrequest, ?_⟩
  · rw [Server.serve, hreads, hedit]
    rfl
  · rw [Server.serve, hreads, hclear]
    rfl

end Letter

end Wire
end Workbench
