import Workbench.Wire.Body
import Workbench.Wire.Command
import Workbench.Wire.Frame

/-!
# Wire/Server — a session that a client drives

Every request gets one response, and some an event behind it.  A request whose arguments do not fit
is answered too, and leaves the session as it is.  Messages are numbered from 1 on as they are
sent.
-/

namespace Workbench

/-- The answer to a request. -/
structure Reply where
  success : Bool := true
  message : Option Text := none
  body : Option Json := none
  /-- The event that follows the response. -/
  event : Option (Text × Option Json) := none

namespace Session

/-- The answer to a run.  A log is also sent as an event. -/
def outcomeReply (b : Bench) : Option Outcome → Reply
  | some (.log log) =>
    { body := some (Body.output log), event := some ("output", some (Body.output log)) }
  | some (.surface id) => { body := some (Body.shown b.source id) }
  | some .cancelled | none => { body := some Body.cancelled }

/-- Carries a command out. -/
def answer (s : Session) : Command → Reply × Session
  | .introduce =>
    ({ body := some (Body.introduction s), event := some ("initialized", none) }, s)
  | .run =>
    let (outcome, s) := s.run
    (outcomeReply s.bench outcome, s)
  | .clear => ({}, s.clear)
  | .switchLanguage l =>
    let s := s.switchLanguage l
    ({ body := some (Body.switched s.bench) }, s)
  | .edit text => ({}, s.edit text)
  | .insertIndent start stop =>
    let s := s.insertIndent start stop
    ({ body := some (Body.indented s.bench) }, s)
  | .highlight =>
    let spans := Highlight.tokenize s.bench.language s.bench.source
    ({ body := some (Body.highlighting s.markup spans) }, s)
  | .state => ({ body := some (Body.state s.bench) }, s)
  | .disconnect => ({}, s)
  | .unknown name =>
    ({ success := false, message := some ("unknown command '" ++ name ++ "'") }, s)

end Session

/-- The messages of an answer, before they are numbered. -/
def Reply.contents (r : Reply) (requestSeq : Nat) (command : Text) : List (Text × Content) :=
  ("response", .response requestSeq r.success command r.message r.body) ::
    r.event.toList.map fun (name, body) => ("event", .event name body)

/-- A session and the number of messages sent so far. -/
structure Server where
  session : Session
  sent : Nat := 0

/-- Whether the server goes on, or has ended and with what fault. -/
inductive Server.Status
  | goesOn
  | ended (fault : Option Error)
  deriving DecidableEq, Repr

namespace Server

/-- Numbers messages that are sent one after the other. -/
def number (sent : Nat) : List (Text × Content) → List Message
  | [] => []
  | (type, content) :: rest => ⟨sent + 1, type, content⟩ :: number (sent + 1) rest

theorem length_number (sent : Nat) (contents : List (Text × Content)) :
    (number sent contents).length = contents.length := by
  induction contents generalizing sent with
  | nil => rfl
  | cons c rest ih => simp [number, ih]

/-- Sends the messages of an answer. -/
def send (v : Server) (requestSeq : Nat) (command : Text) (r : Reply) : List Message × Server :=
  let messages := number v.sent (r.contents requestSeq command)
  (messages, { v with sent := v.sent + messages.length })

/-- Carries a request out: what is to be answered, the session afterwards, and whether the client
stays. -/
def handle (s : Session) (name : Text) (arguments : Option Json) :
    Except Error (Reply × Session × Bool) :=
  match Command.read name arguments with
  | .error fault => .error (.arguments fault)
  | .ok command =>
    let (reply, s) := s.answer command
    .ok (reply, s, command ≠ .disconnect)

/-- Whether a fault in place of a message is passed over. -/
def passesOver : Error → Bool
  | .malformedJson | .arguments _ | .protocol _ => true
  | _ => false

/-- Whether a fault of a request is the client's own, which is answered. -/
def isAnswered : Error → Bool
  | .malformedJson | .arguments _ | .unknownLanguage _ => true
  | _ => false

/-- What the server does about the next message, or the fault in its place. -/
def step (v : Server) : Except Error Message → List Message × Server × Status
  | .error fault => ([], v, if passesOver fault then .goesOn else .ended (some fault))
  | .ok ⟨seq, _, .request name arguments⟩ =>
    match handle v.session name arguments with
    | .ok (reply, session, stays) =>
      let (messages, v) := { v with session }.send seq name reply
      (messages, v, if stays then .goesOn else .ended none)
    | .error fault =>
      if isAnswered fault then
        let (messages, v) := v.send seq name { success := false, message := some fault.message }
        (messages, v, .goesOn)
      else ([], v, .ended (some fault))
  | .ok _ => ([], v, .goesOn)

/-- Serves until the client leaves or the input ends: the messages sent, the server at the end, and
the fault that ended it, if one did. -/
def run (v : Server) : List (Except Error Message) → List Message × Server × Option Error
  | [] => ([], v, none)
  | received :: rest =>
    match v.step received with
    | (messages, v, .goesOn) =>
      let (more, v, fault) := v.run rest
      (messages ++ more, v, fault)
    | (messages, v, .ended fault) => (messages, v, fault)

/-- Serves a stream. -/
def serve (s : Session) (input : Bytes) : List Message × Server × Option Error :=
  run { session := s } (readMessages input)

end Server
end Workbench
