import Workbench.Proofs.Console.Quote
import Workbench.Proofs.Wire.Kind
import Workbench.Proofs.Wire.Sent

/-!
# Proofs/Console/Order — one order, typed or sent

What can be asked for at a console and over the wire alike is an `Order`.  It has a line that asks
for it and a request that does, and these come to one thing: the session is left the same, and what
the console prints can be read off the response (`Order.perform_instruction`).
-/

namespace Workbench

open Console (line)

/-! ## Orders -/

/-- What can be asked for at a console and over the wire alike. -/
inductive Order
  | run
  | clear
  | switchLanguage (language : Language)
  | edit (text : Text)
  | insertIndent (offset : UInt64)
  | highlight

namespace Order

/-- The words of the line that gives an order. -/
def words : Order → List Text
  | run => ["run"]
  | clear => ["clear"]
  | switchLanguage l => ["lang", l.tag]
  | edit text => "edit" :: Text.pieces '\n' text
  | insertIndent offset => ["indent", Text.ofNat offset.toNat]
  | highlight => ["highlight"]

/-- How these words are written: of an edit each line of the text between single quotes. -/
def ways : Order → List Text
  | run => ["run"]
  | clear => ["clear"]
  | switchLanguage l => ["lang", l.tag]
  | edit text => "edit" :: (Text.pieces '\n' text).map Console.quoted
  | insertIndent offset => ["indent", Text.ofNat offset.toNat]
  | highlight => ["highlight"]

/-- The line that gives an order at a console. -/
def typed (o : Order) : Text := line (Text.joined " " o.ways)

/-- The name of the command that gives an order over the wire. -/
def name : Order → Text
  | run => "run"
  | clear => "clear"
  | switchLanguage _ => "switchLanguage"
  | edit _ => "edit"
  | insertIndent _ => "insertIndent"
  | highlight => "highlight"

/-- The arguments of that command. -/
def arguments : Order → Option Json
  | switchLanguage l => some (.object [("language", .string l.tag)])
  | edit text => some (.object [("text", .string text)])
  | insertIndent offset => some (.object [("start", .ofNat offset.toNat)])
  | run | clear | highlight => none

/-- What a line that gives an order asks for. -/
def instruction : Order → Console.Instruction
  | run => .run
  | clear => .clear
  | switchLanguage l => .language l.tag
  | edit text => .edit (Text.pieces '\n' text)
  | insertIndent offset => .indent (Text.ofNat offset.toNat)
  | highlight => .highlight

/-- What a request that gives an order asks for. -/
def command : Order → Command
  | run => .run
  | clear => .clear
  | switchLanguage l => .switchLanguage l
  | edit text => .edit text
  | insertIndent offset => .insertIndent offset.toNat offset.toNat
  | highlight => .highlight

end Order

/-- An order with the number of the request for it. -/
structure Errand where
  seq : UInt64
  order : Order

namespace Errand

/-- The request. -/
def call (e : Errand) : Call := ⟨e.seq.toNat, e.order.name, e.order.arguments⟩

/-- The request as a message. -/
def message (e : Errand) : Message :=
  ⟨e.seq.toNat, "request", .request e.order.name e.order.arguments⟩

/-- Whether the body of the request is short enough for the wire. -/
def fits (e : Errand) : Bool := Text.bytes e.message.toJson.print ≤ maxBody

end Errand

/-! ## What can be read off a response -/

/-- The value of a member of an object. -/
def Json.member? (key : Text) : Json → Option Json
  | .object members => members.lookup key
  | _ => none

namespace Body

open Message (asNat asText)

/-- The entry that a value tells. -/
def readEntry (v : Json) : Option Log.Entry := do
  let text ← (v.member? "text").bind asText
  let kind ← ((v.member? "type").bind asText).bind Log.Kind.ofName?
  return ⟨text, kind⟩

/-- The log that a value tells. -/
def readLog : Json → Option Log
  | .array entries => entries.mapM readEntry
  | _ => none

/-- The printed form of what a run is answered with: of the log, or else of the surface. -/
def printedRun (body : Json) : Text :=
  match (body.member? "log").bind readLog with
  | some log => Console.printLog log
  | none =>
    match (body.member? "document").bind asText, (body.member? "surface").bind asNat with
    | some document, some id => Console.printOutcome document (some (.surface id))
    | _, _ => Console.printOutcome [] none

/-- What is printed of the body of a response to a command. -/
def printed (name : Text) (body : Json) : Text :=
  match String.ofList name with
  | "run" => printedRun body
  | "insertIndent" =>
    ((body.member? "cursor").bind asNat).elim [] fun n => line ("cursor at " ++ Text.ofNat n)
  | "highlight" => ((body.member? "markup").bind asText).elim [] line
  | _ => []

theorem readEntry_entry (e : Log.Entry) : readEntry (entry e) = some e := by
  have hkind : ((entry e).member? "type").bind asText = some e.kind.name := rfl
  rw [readEntry, hkind, Option.bind_some, Log.Kind.ofName?_name]
  rfl

/-- A log that is told can be read again. -/
theorem readLog_log (trace : Log) : readLog (log trace) = some trace := by
  rw [log, readLog]
  induction trace with
  | nil => rfl
  | cons e trace ih => rw [List.map_cons, List.mapM_cons, readEntry_entry, ih]; rfl

/-- A run is printed as its outcome is. -/
theorem printed_outcomeReply (b : Bench) (outcome : Option Outcome) :
    (Session.outcomeReply b outcome).body.elim [] (printed "run") =
      Console.printOutcome b.source outcome := by
  match outcome with
  | some (.log trace) =>
    have hlog : ((output trace).member? "log").bind readLog = some trace := readLog_log trace
    show printedRun (output trace) = _
    rw [printedRun, hlog]
    rfl
  | some (.surface id) | some .cancelled | none => rfl

end Body

/-- What is printed of a message: of a response to a run the log or the surface, to an indent the
caret, to a highlighting the markup. -/
def Message.printed (m : Message) : Text :=
  match m.content with
  | .response _ _ name _ (some body) => Body.printed name body
  | _ => []

/-- Only the response is printed of an answer, and not the event behind it. -/
theorem Reply.printed_contents (reply : Reply) (sent seq : Nat) (name : Text) :
    (Server.number sent (reply.contents seq name)).flatMap Message.printed =
      reply.body.elim [] (Body.printed name) := by
  rw [Reply.contents, Server.number, List.flatMap_cons]
  have hresponse : Message.printed ⟨sent + 1, "response",
      .response seq reply.success name reply.message reply.body⟩ =
        reply.body.elim [] (Body.printed name) := by
    cases hbody : reply.body <;> rfl
  rw [hresponse]
  cases hevent : reply.event <;> simp [Server.number, Message.printed]

/-! ## One order -/

namespace Order

variable (o : Order)

theorem ofWords?_words : Console.Instruction.ofWords? o.words = some o.instruction := by
  cases o <;> rfl

/-- The words are written so that they are read again. -/
theorem writes_ways : List.Forall₂ Console.Writes o.ways o.words := by
  have hplain {t : Text} (ht : t ≠ []) (h : t.all Console.isPlain = true) : Console.Writes t t :=
    .plain ht (List.all_eq_true.mp h)
  cases o with
  | run => exact .cons (hplain (by decide) (by decide)) .nil
  | clear => exact .cons (hplain (by decide) (by decide)) .nil
  | highlight => exact .cons (hplain (by decide) (by decide)) .nil
  | switchLanguage l =>
    refine .cons (hplain (by decide) (by decide)) (.cons ?_ .nil)
    cases l <;> exact hplain (by decide) (by decide)
  | insertIndent offset =>
    exact .cons (hplain (by decide) (by decide)) (.cons (.ofNat offset.toNat) .nil)
  | edit text =>
    refine .cons (hplain (by decide) (by decide)) ?_
    rw [List.forall₂_map_left_iff, List.forall₂_same]
    exact fun piece hpiece => .quoted (Text.notMem_of_mem_pieces hpiece)

/-- A line that gives an order is read as its instruction. -/
theorem readLine_typed : Console.readLine o.typed = .ok (some o.instruction) :=
  Console.readLine_joined o.writes_ways o.ofWords?_words

theorem feed_notMem_joined_ways : '\n' ∉ Text.joined " " o.ways :=
  (Console.joined_line o.writes_ways (by cases o <;> exact List.cons_ne_nil _ _)).2

/-- **An order is carried out alike** at a console and over the wire: what is printed can be read
off the answer, and the session is left the same. -/
theorem perform_instruction (files : Files) (s : Session) :
    Console.perform files s o.instruction =
      { out := (s.answer o.command).1.body.elim [] (Body.printed o.name)
        session := (s.answer o.command).2 } := by
  cases o with
  | run =>
    have hprinted := Body.printed_outcomeReply s.run.2.bench s.run.1
    exact congrArg (fun out => Console.Response.mk out [] s.run.2 true) hprinted.symm
  | clear => rfl
  | switchLanguage l => cases l <;> rfl
  | edit text =>
    have hjoined : Text.joined "\n" (Text.pieces '\n' text) = text := Text.joined_pieces '\n' text
    rw [instruction, Console.perform, hjoined]
    rfl
  | insertIndent offset =>
    rw [instruction, Console.perform, Text.count?_ofNat offset.toNat_lt]
    rfl
  | highlight => rfl

end Order

namespace Errand

variable (e : Errand)

/-- A request for an order asks for its command. -/
theorem command_call : e.call.command = .ok e.order.command := by
  obtain ⟨seq, order⟩ := e
  cases order with
  | run | clear | edit | insertIndent | highlight => rfl
  | switchLanguage l => cases l <;> rfl

theorem name_ne_disconnect : e.call.name ≠ "disconnect" := by
  obtain ⟨seq, order⟩ := e
  cases order <;> exact of_decide_eq_true rfl

/-- The arguments of a request can be sent. -/
theorem report_arguments {v : Json} (h : v ∈ e.order.arguments) : v.Report := by
  obtain ⟨seq, order⟩ := e
  cases order with
  | run | clear | highlight => cases h
  | switchLanguage | edit =>
    cases h
    exact Json.Told.report (by simp)
  | insertIndent offset =>
    cases h
    exact Json.Told.report (by simpa using offset.toNat_lt)

/-- A request that is short enough can be sent. -/
theorem sendable (h : e.fits = true) : e.message.Sendable where
  seq := e.seq.toNat_lt
  content _ hv := (e.report_arguments hv).toPayload
  depth := Nat.lt_of_le_of_lt (Message.depth_toJson_le fun _ hv => (e.report_arguments hv).depth)
    (by decide)
  size := of_decide_eq_true h

/-- What the server does about a request that it has read. -/
theorem run_message (v : Server) (received : List (Except Error Message)) :
    v.run (.ok e.message :: received) =
      (v.answerTo e.call ++ ((v.behind e.call).run received).1,
        ((v.behind e.call).run received).2) := by
  have hrun := v.run_request e.call "request" received
  rwa [Server.runFrom, if_neg e.name_ne_disconnect] at hrun

/-- A request that is too long is dropped, and what follows it is served as if it was not there. -/
theorem run_of_not_fits (h : e.fits = false) (hcounted : Text.bytes e.message.toJson.print < 2 ^ 64)
    (v : Server) (rest : Bytes) :
    v.run (readMessages (Text.encode e.message.frame ++ rest)) = v.run (readMessages rest) := by
  have hlong : maxBody < Text.bytes e.message.toJson.print :=
    Nat.lt_of_not_le (of_decide_eq_false h)
  have hread := Message.readMessage_frame_of_long e.message hlong hcounted rest
  rw [Wire.readMessages_cons hread (by simp [Wire.Oversized.fault])]
  rfl

/-- What is printed of the answer to a request is what is printed for the order. -/
theorem printed_answerTo (v : Server) (files : Files) :
    (v.answerTo e.call).flatMap Message.printed =
      (Console.perform files v.session e.order.instruction).out := by
  have hreply : v.session.reply e.call = (v.session.answer e.order.command).1 := by
    rw [Session.reply, e.command_call]
  rw [Server.answerTo, Reply.printed_contents, hreply, e.order.perform_instruction]
  rfl

theorem session_behind (v : Server) (files : Files) :
    (v.behind e.call).session = (Console.perform files v.session e.order.instruction).session := by
  rw [e.order.perform_instruction]
  exact Session.attend_of_ok e.command_call

end Errand

end Workbench
