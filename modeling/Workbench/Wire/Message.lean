import Workbench.Error
import Workbench.Json.Printer
import Workbench.Json.Reader
import Workbench.Text.Utf8

/-!
# Wire/Message — what client and workbench say to each other

A message is a request, a response to one, or an event.  Its JSON form does not name which of them
it is: the members do.  A response has the most of them, so an object is read as a response if it
can be, else as an event, else as a request; members that the form does not know are passed over.
-/

namespace Workbench

/-- What a message says. -/
inductive Content
  | response (requestSeq : Nat) (success : Bool) (command : Text) (message : Option Text)
      (body : Option Json)
  | event (name : Text) (body : Option Json)
  | request (command : Text) (arguments : Option Json)
  deriving Repr

/-- A message with its number. -/
structure Message where
  seq : Nat
  /-- The type that the sender gives it. -/
  type : Text
  content : Content
  deriving Repr

namespace Message

/-! ## Writing -/

/-- A member that is left out if there is no value. -/
def optionalMember (key : Text) (value : Option Json) : Json.Members :=
  value.toList.map fun v => (key, v)

/-- The members that belong to what is said. -/
def contentMembers : Content → Json.Members
  | .response requestSeq success command message body =>
    ("request_seq", .ofNat requestSeq) :: ("success", .bool success) ::
      ("command", .string command) ::
      (optionalMember "message" (message.map .string) ++ optionalMember "body" body)
  | .event name body => ("event", .string name) :: optionalMember "body" body
  | .request command arguments =>
    ("command", .string command) :: optionalMember "arguments" arguments

/-- A message as an object. -/
def toJson (m : Message) : Json :=
  .object (("seq", .ofNat m.seq) :: ("type", .string m.type) :: contentMembers m.content)

/-! ## Reading -/

/-- The value of a member, which must be there exactly once. -/
def required (key : Text) (members : Json.Members) : Option Json :=
  match members.filter fun (k, _) => k = key with
  | [(_, value)] => some value
  | _ => none

/-- The value of a member, which may be absent or null, but not be repeated. -/
def optional (key : Text) (members : Json.Members) : Option (Option Json) :=
  match members.filter fun (k, _) => k = key with
  | [] => some none
  | [(_, .null)] => some none
  | [(_, value)] => some (some value)
  | _ => none

/-- The natural number that a value is. -/
def asNat : Json → Option Nat
  | .number (.natural n) => some n
  | _ => none

/-- The truth value that a value is. -/
def asBool : Json → Option Bool
  | .bool b => some b
  | _ => none

/-- The text that a value is. -/
def asText : Json → Option Text
  | .string t => some t
  | _ => none

/-- An optional member that holds a text. -/
def optionalText (key : Text) (members : Json.Members) : Option (Option Text) :=
  match optional key members with
  | none => none
  | some none => some none
  | some (some value) => (asText value).map some

/-- An optional member that holds any value; it is kept in sorted form. -/
def optionalValue (key : Text) (members : Json.Members) : Option (Option Json) :=
  (optional key members).map fun value => value.map Json.sorted

/-- The members read as a response. -/
def asResponse? (members : Json.Members) : Option Content := do
  return .response (← (required "request_seq" members).bind asNat)
    (← (required "success" members).bind asBool) (← (required "command" members).bind asText)
    (← optionalText "message" members) (← optionalValue "body" members)

/-- The members read as an event. -/
def asEvent? (members : Json.Members) : Option Content := do
  return .event (← (required "event" members).bind asText) (← optionalValue "body" members)

/-- The members read as a request. -/
def asRequest? (members : Json.Members) : Option Content := do
  return .request (← (required "command" members).bind asText)
    (← optionalValue "arguments" members)

/-- What the members of an object say. -/
def readContent (members : Json.Members) : Option Content :=
  asResponse? members <|> asEvent? members <|> asRequest? members

/-- The message that an object is. -/
def ofJson? : Json → Option Message
  | .object members => do
    let seq ← (required "seq" members).bind asNat
    let type ← (required "type" members).bind asText
    return ⟨seq, type, ← readContent members⟩
  | _ => none

/-- The message that the bytes of a body hold. -/
def decode (body : Bytes) : Except Error Message :=
  match ((Text.decode body).bind Json.read?).bind ofJson? with
  | some m => .ok m
  | none => .error .malformedJson

end Message
end Workbench
