import Workbench.Proofs.Session.Rest
import Workbench.Proofs.Wire.Argument
import Workbench.Proofs.Wire.Exchange

/-!
# Proofs/Wire/Conversation — a served session is what the requests make of it

A request asks for an operation on the session, or for none (`Call.operation?`): which, is said by
its name and by the fields that it gives (`Call.Asks`).  A server does nothing to its session but
these operations, in the order of the requests (`serve_converses`).
Request by request it is a `Conversation`: a request that fails changes nothing, no run is left over
when a request has been answered, so none is ever answered as cancelled, and a document that is
reported with a surface is what stands on it.
-/

namespace Workbench

/-! ## What a request asks for -/

/-- A request as it is read: its number, the name of its command and the arguments. -/
structure Call where
  seq : Nat
  name : Text
  arguments : Option Json

/-- The operation that a request asks for: none if its name calls for none, and none if its
arguments do not fit. -/
def Call.operation? (c : Call) : Option Session.Operation :=
  let arguments := c.arguments.getD .null
  match String.ofList c.name with
  | "run" => some .run
  | "clear" => some .clear
  | "switchLanguage" =>
    (Command.oneField "struct SwitchLanguageArguments" "language" Command.languageField
      arguments).toOption.map .switchLanguage
  | "edit" =>
    (Command.oneField "struct EditArguments" "text" Command.textField arguments).toOption.map .edit
  | "insertIndent" =>
    (Command.indentArguments arguments).toOption.map fun (start, stop) => .insertIndent start stop
  | _ => none

/-- What a request asks for, by the name of its command and by the fields that it gives.  Arguments
that are left out are null, and give no field. -/
inductive Call.Asks (c : Call) : Session.Operation → Prop
  | run : c.name = "run" → c.Asks .run
  | clear : c.name = "clear" → c.Asks .clear
  | switchLanguage {l : Language} {value : Json} :
      c.name = "switchLanguage" → Command.Gives "language" value (c.arguments.getD .null) →
      value = .string l.tag ∨ value = .object [(l.tag, .null)] → c.Asks (.switchLanguage l)
  | edit {text : Text} :
      c.name = "edit" → Command.Gives "text" (.string text) (c.arguments.getD .null) →
      c.Asks (.edit text)
  | insertIndent {start stop : Nat} :
      c.name = "insertIndent" → Command.Indents (c.arguments.getD .null) start stop →
      c.Asks (.insertIndent start stop)

/-- **The operation of a request** is the one that it asks for. -/
theorem Call.operation?_eq_some_iff {c : Call} {operation : Session.Operation} :
    c.operation? = some operation ↔ c.Asks operation := by
  have hname {s : String} (h : String.ofList c.name = s) : c.name = s.toList := by
    rw [← h, String.toList_ofList]
  constructor
  · intro h
    unfold operation? at h
    dsimp only at h
    split at h
    · next hs =>
      cases h
      exact .run (hname hs)
    · next hs =>
      cases h
      exact .clear (hname hs)
    · next hs =>
      obtain ⟨l, hl, rfl⟩ := Except.map_toOption_eq_some_iff.mp h
      obtain ⟨value, hgives, hvalue⟩ := Command.oneField_eq_ok_iff.mp hl
      exact .switchLanguage (hname hs) hgives (Command.languageField_eq_ok_iff.mp hvalue)
    · next hs =>
      obtain ⟨text, htext, rfl⟩ := Except.map_toOption_eq_some_iff.mp h
      obtain ⟨value, hgives, hvalue⟩ := Command.oneField_eq_ok_iff.mp htext
      rw [Command.textField_eq_ok_iff.mp hvalue] at hgives
      exact .edit (hname hs) hgives
    · next hs =>
      obtain ⟨⟨start, stop⟩, hrange, rfl⟩ := Except.map_toOption_eq_some_iff.mp h
      exact .insertIndent (hname hs) (Command.indentArguments_eq_ok_iff.mp hrange)
    · cases h
  · rintro (hs | hs | ⟨hs, hgives, hvalue⟩ | ⟨hs, hgives⟩ | ⟨hs, hindents⟩)
    · rw [operation?, hs]
      rfl
    · rw [operation?, hs]
      rfl
    · rw [operation?, hs]
      exact Except.map_toOption_eq_some_iff.mpr ⟨_, Command.oneField_eq_ok_iff.mpr
        ⟨_, hgives, Command.languageField_eq_ok_iff.mpr hvalue⟩, rfl⟩
    · rw [operation?, hs]
      exact Except.map_toOption_eq_some_iff.mpr ⟨_, Command.oneField_eq_ok_iff.mpr
        ⟨_, hgives, Command.textField_eq_ok_iff.mpr rfl⟩, rfl⟩
    · rw [operation?, hs]
      exact Except.map_toOption_eq_some_iff.mpr
        ⟨_, Command.indentArguments_eq_ok_iff.mpr hindents, rfl⟩

/-- The requests among what is received, up to the end; a request to disconnect is the last. -/
def called : List (Except Error Message) → List Call
  | [] => []
  | .ok ⟨seq, _, .request name arguments⟩ :: rest =>
    if name = "disconnect" then [⟨seq, name, arguments⟩]
    else ⟨seq, name, arguments⟩ :: called rest
  | .error (.stream _) :: _ => []
  | _ :: rest => called rest

/-- The operation of a command, if it has one. -/
def Command.operation? : Command → Option Session.Operation
  | .run => some .run
  | .clear => some .clear
  | .switchLanguage l => some (.switchLanguage l)
  | .edit text => some (.edit text)
  | .insertIndent start stop => some (.insertIndent start stop)
  | .introduce | .highlight | .state | .disconnect | .unknown _ => none

/-- The command of a request, if its arguments fit. -/
def Call.command (c : Call) : Except ArgumentFault Command := Command.read c.name c.arguments

/-- A request asks for the operation of its command, if it can be read. -/
theorem Call.operation?_eq (c : Call) :
    c.operation? = c.command.toOption.bind Command.operation? := by
  have hmap {α : Type} (command : α → Command) (operation : α → Session.Operation)
      (h : ∀ a, (command a).operation? = some (operation a)) (read : Except ArgumentFault α) :
      read.toOption.map operation = (command <$> read).toOption.bind Command.operation? := by
    cases read with
    | error => rfl
    | ok a => exact (h a).symm
  unfold operation? command Command.read
  dsimp only
  generalize String.ofList c.name = word
  split
  case h_3 | h_4 | h_5 => exact hmap _ _ (fun _ => rfl) _
  case h_6 => split <;> first | contradiction | rfl
  all_goals rfl

/-! ## What a session answers -/

namespace Session

/-- What a request makes of a session. -/
def attend (s : Session) (c : Call) : Session := c.operation?.elim s s.perform

/-- The answer to a request. -/
def reply (s : Session) (c : Call) : Reply :=
  match c.command with
  | .ok command => (s.answer command).1
  | .error fault => { success := false, message := some (Error.arguments fault).message }

variable {s : Session} {c : Call}

theorem attend_of_ok {command : Command} (h : c.command = .ok command) :
    s.attend c = (s.answer command).2 := by
  rw [attend, c.operation?_eq, h]
  cases command <;> rfl

theorem attend_of_error {fault : ArgumentFault} (h : c.command = .error fault) :
    s.attend c = s := by
  rw [attend, c.operation?_eq, h]
  rfl

/-- No request leaves a run behind. -/
theorem AtRest.attend (h : s.AtRest) (c : Call) : (s.attend c).AtRest := by
  cases hcommand : c.command with
  | error fault => rwa [attend_of_error hcommand]
  | ok command =>
    rw [attend_of_ok hcommand]
    cases command with
    | run => exact h.run
    | clear => exact h.clear
    | switchLanguage l => exact h.switchLanguage l
    | edit | insertIndent => exact ⟨⟨h.notRunning, h.noneWaits⟩, h.issued, h.kept⟩
    | introduce | highlight | state | disconnect | unknown => exact h

theorem outcomeReply_success (b : Bench) (outcome : Option Outcome) :
    (outcomeReply b outcome).success = true := by
  match outcome with
  | some (.log _) | some (.surface _) | some .cancelled | none => rfl

/-- Only an unknown command fails when it is carried out, and it does nothing. -/
theorem answer_of_failed {command : Command} (h : (s.answer command).1.success = false) :
    (s.answer command).2 = s := by
  cases command with
  | unknown => rfl
  | run => exact absurd h (by simp [answer, outcomeReply_success])
  | introduce | clear | switchLanguage | edit | insertIndent | highlight | state | disconnect =>
    cases h

end Session

/-- One request, answered: the session before it and the session behind it. -/
structure Turn (s : Session) (c : Call) (reply : Reply) (s' : Session) : Prop where
  /-- No run is left over from before. -/
  idle : s.Idle
  /-- Nothing happens to the session but what the request asks for. -/
  attends : s' = s.attend c
  /-- A request that fails changes nothing. -/
  fails : reply.success = false → s' = s
  /-- No run is answered as cancelled. -/
  runs : c.name = "run" → reply.body ≠ some Body.cancelled
  /-- A document that is reported with a surface is what stands on it. -/
  shows : ∀ document id, reply.body = some (Body.shown document id) →
    s'.preview.current = some id ∧ s'.preview.host.live.lookup id = some document

theorem Body.shown_inj {document document' : Text} {id id' : SurfaceId} :
    Body.shown document id = Body.shown document' id' ↔ document = document' ∧ id = id' := by
  simp [Body.shown, Json.ofNat]

namespace Session

variable {s : Session} {c : Call}

/-- A run is answered with a log, or with the source that stands on the current surface. -/
theorem AtRest.answer_run (h : s.AtRest) :
    (∃ log, (s.answer .run).1.body = some (Body.output log)) ∨
    (∃ id, (s.answer .run).1.body = some (Body.shown s.run.2.bench.source id) ∧
      s.run.2.preview.current = some id ∧
      s.run.2.preview.host.live.lookup id = some s.run.2.bench.source) := by
  have hbody : (s.answer .run).1 = outcomeReply s.run.2.bench s.run.1 := rfl
  rw [hbody]
  rcases h.outcome with ⟨log, hlog⟩ | ⟨id, hid, hshown⟩
  · rw [hlog]
    exact .inl ⟨log, rfl⟩
  · rw [hid]
    exact .inr ⟨id, rfl, hshown⟩

/-- Only a run reports a document with a surface. -/
theorem eq_run_of_answer_shown {command : Command} {document : Text} {id : SurfaceId}
    (h : (s.answer command).1.body = some (Body.shown document id)) : command = .run := by
  cases command with
  | run => rfl
  | clear | edit | disconnect | unknown => cases h
  | introduce | switchLanguage | insertIndent | highlight | state =>
    simp [answer, Body.introduction, Body.switched, Body.indented, Body.highlighting, Body.state,
      Body.shown] at h

/-- **A request is answered** in one turn, which leaves the session at rest again. -/
theorem AtRest.turn (h : s.AtRest) (c : Call) : Turn s c (s.reply c) (s.attend c) := by
  cases hcommand : c.command with
  | error fault =>
    have hbody : (s.reply c).body = none := by rw [reply, hcommand]
    exact {
      idle := h.toIdle
      attends := rfl
      fails := fun _ => attend_of_error hcommand
      runs := fun _ => hbody ▸ nofun
      shows := fun _ _ => hbody ▸ nofun }
  | ok command =>
    have hreply : s.reply c = (s.answer command).1 := by rw [reply, hcommand]
    have hattend : s.attend c = (s.answer command).2 := attend_of_ok hcommand
    refine ⟨h.toIdle, rfl, ?_, fun hname => ?_, fun document id hshown => ?_⟩
    · rw [hreply, hattend]
      exact answer_of_failed
    · obtain rfl : command = .run := by
        rw [Call.command, hname, Command.read_run] at hcommand
        exact (Except.ok.inj hcommand).symm
      rw [hreply]
      rcases h.answer_run with ⟨log, hbody⟩ | ⟨id, hbody, -⟩
      · rw [hbody]
        exact fun hcancelled => Body.cancelled_ne_output log (Option.some.inj hcancelled).symm
      · rw [hbody]
        simp [Body.shown, Body.cancelled]
    · rw [hreply] at hshown
      obtain rfl := eq_run_of_answer_shown hshown
      rw [hattend]
      rcases h.answer_run with ⟨log, hbody⟩ | ⟨id', hbody, hlive⟩
      · rw [hbody] at hshown
        exact absurd (Option.some.inj hshown).symm (Body.shown_ne_output _ _ log)
      · rw [hbody, Option.some.injEq, Body.shown_inj] at hshown
        obtain ⟨rfl, rfl⟩ := hshown
        exact hlive

end Session

/-! ## Serving -/

/-- Requests that are answered one after the other, from one session to another. -/
inductive Conversation : Session → List Call → List Reply → Session → Prop
  | silence {s : Session} : s.Idle → Conversation s [] [] s
  | turn {s s' s'' : Session} {c : Call} {calls : List Call} {reply : Reply}
      {replies : List Reply} :
      Turn s c reply s' → Conversation s' calls replies s'' →
      Conversation s (c :: calls) (reply :: replies) s''

/-- A conversation is what the operations make of the session. -/
theorem Conversation.performAll_eq {s s' : Session} {calls : List Call} {replies : List Reply}
    (h : Conversation s calls replies s') :
    s' = s.performAll (calls.filterMap Call.operation?) := by
  induction h with
  | silence => rfl
  | @turn s s' s'' c calls reply replies hturn _ ih =>
    rw [ih, hturn.attends, Session.attend]
    cases hoperation : c.operation? with
    | none => rw [List.filterMap_cons_none hoperation]; rfl
    | some operation => rw [List.filterMap_cons_some hoperation]; rfl

namespace Server

/-- What a request makes of a server, and what is sent because of it. -/
theorem step_request_eq (v : Server) (c : Call) (type : Text) :
    let contents := (v.session.reply c).contents c.seq c.name
    v.step (.ok ⟨c.seq, type, .request c.name c.arguments⟩) =
      (number v.sent contents, ⟨v.session.attend c, v.sent + contents.length⟩,
        if c.name = "disconnect" then .ended none else .goesOn) := by
  intro contents
  obtain ⟨contents', v', -, -, hstep⟩ := v.step_request c.seq type c.name c.arguments
  have hstatus := congrArg (fun result => result.2.2) hstep
  dsimp only at hstatus
  rw [← hstatus, ← length_number v.sent contents]
  cases hcommand : c.command with
  | ok command =>
    have hread : Command.read c.name c.arguments = .ok command := hcommand
    have hreply : v.session.reply c = (v.session.answer command).1 := by
      rw [Session.reply, hcommand]
    rw [Session.attend_of_ok hcommand, step, handle, hread]
    simp only [contents, hreply]
    rfl
  | error fault =>
    have hread : Command.read c.name c.arguments = .error fault := hcommand
    have hreply : v.session.reply c =
        { success := false, message := some (Error.arguments fault).message } := by
      rw [Session.reply, hcommand]
    rw [Session.attend_of_error hcommand, step, handle, hread]
    simp only [contents, hreply]
    rfl

/-- What is sent for requests is what they are replied, one after the other. -/
def answered (calls : List Call) (replies : List Reply) : List (Text × Content) :=
  (List.zipWith (fun c (reply : Reply) => reply.contents c.seq c.name) calls replies).flatten

/-- **A run of turns**: however the service goes on, it is a conversation. -/
theorem run_converses (v : Server) (hv : v.session.AtRest) {received : List (Except Error Message)}
    (hreceived : ∀ result ∈ received, OfInput result) :
    ∃ replies, Conversation v.session (called received) replies (v.run received).2.1.session ∧
      (v.run received).1 = number v.sent (answered (called received) replies) := by
  induction received generalizing v with
  | nil => exact ⟨[], .silence hv.toIdle, rfl⟩
  | cons result rest ih =>
    have hrest := fun v hv =>
      ih v hv fun result hresult => hreceived result (List.mem_cons_of_mem _ hresult)
    match result with
    | .ok ⟨seq, type, .request name arguments⟩ =>
      let c : Call := ⟨seq, name, arguments⟩
      have hturn : Turn v.session c (v.session.reply c) (v.session.attend c) := hv.turn c
      have hnext : (v.session.attend c).AtRest := hv.attend c
      rw [run, v.step_request_eq c, called]
      by_cases hname : name = "disconnect"
      · rw [if_pos hname, if_pos hname]
        exact ⟨_, .turn hturn (.silence hnext.toIdle), by simp [answered, c]⟩
      · rw [if_neg hname, if_neg hname]
        obtain ⟨replies, hconversation, hmessages⟩ := hrest ⟨v.session.attend c, _⟩ hnext
        refine ⟨_ :: replies, .turn hturn hconversation, ?_⟩
        rw [answered, List.zipWith_cons_cons, List.flatten_cons, number_append]
        exact congrArg (number v.sent _ ++ ·) hmessages
    | .ok ⟨seq, type, .response _ _ _ _ _⟩ => exact hrest v hv
    | .ok ⟨seq, type, .event _ _⟩ => exact hrest v hv
    | .error e =>
      rcases hreceived _ List.mem_cons_self e rfl with hpassed | ⟨fault, rfl⟩
      · cases e with
        | malformedJson | arguments | protocol => exact hrest v hv
        | _ => cases hpassed
      · exact ⟨[], .silence hv.toIdle, rfl⟩

/-- **A served session is what the requests make of it**: the session at the end is what the
operations that were asked for make of a fresh one, in order, by a conversation whose replies are
what was sent. -/
theorem serve_converses (settings : Settings) (refusals : Refusals) (input : Bytes) :
    let start := Session.new settings { refusals }
    let calls := called (readMessages input)
    let (messages, v, _) := serve start input
    v.session = start.performAll (calls.filterMap Call.operation?) ∧
      ∃ replies, Conversation start calls replies v.session ∧
        messages.map (fun m => (m.type, m.content)) = answered calls replies := by
  obtain ⟨replies, hconversation, hmessages⟩ :=
    run_converses { session := Session.new settings { refusals } }
      (.new settings refusals) (ofInput_readMessages input)
  refine ⟨hconversation.performAll_eq, replies, hconversation, ?_⟩
  exact (congrArg _ hmessages).trans (map_content_number _ _)

end Server
end Workbench
