import Workbench.Proofs.Wire.Header
import Workbench.Wire.Server

/-!
# Proofs/Wire/Exchange — every request gets one response

What is received before the client leaves or the stream fails are the requests that are **heard**,
among faults and other messages that nobody answers.  Each of them gets one response, with an event
behind it where the command calls for one (`Exchange`), and nothing else is sent.  No request ends
the service but the one to disconnect, whatever fails in it (`serve_exchanges`).
-/

namespace Workbench

/-! ## Names of commands -/

namespace Command

variable {name : Text} {arguments : Option Json}

theorem read_introduce (arguments : Option Json) :
    read "initialize" arguments = .ok introduce := rfl

theorem read_run (arguments : Option Json) : read "run" arguments = .ok run := rfl

theorem read_disconnect (arguments : Option Json) :
    read "disconnect" arguments = .ok disconnect := rfl

/-- Only these names give these commands. -/
theorem name_of_read {command : Command} (h : read name arguments = .ok command) :
    match command with
    | .introduce => name = "initialize"
    | .run => name = "run"
    | .disconnect => name = "disconnect"
    | _ => True := by
  have hname {s : String} (hs : String.ofList name = s) : name = s.toList := by
    rw [← hs, String.toList_ofList]
  have hmap {α : Type} {f : α → Command} {read : Except ArgumentFault α}
      (hread : f <$> read = .ok command) : ∃ a, f a = command := by
    cases read with
    | error => cases hread
    | ok a => exact ⟨a, Except.ok.inj hread⟩
  unfold read at h
  dsimp only at h
  split at h
  case h_1 hs => cases h; exact hname hs
  case h_2 hs => cases h; exact hname hs
  case h_9 hs => cases h; exact hname hs
  case h_4 | h_5 | h_6 =>
    obtain ⟨a, rfl⟩ := hmap h
    trivial
  all_goals
    cases h
    trivial

end Command

/-! ## Numbered messages -/

namespace Server

/-- Numbers go on from one list of messages to the next. -/
theorem number_append (sent : Nat) (before after : List (Text × Content)) :
    number sent (before ++ after) = number sent before ++ number (sent + before.length) after := by
  induction before generalizing sent with
  | nil => rfl
  | cons content before ih =>
    rw [List.cons_append, number, ih, number, List.cons_append, List.length_cons,
      Nat.add_right_comm, Nat.add_assoc sent]

/-- Messages are numbered upwards, without a gap. -/
theorem map_seq_number (sent : Nat) (contents : List (Text × Content)) :
    (number sent contents).map (·.seq) = List.range' (sent + 1) contents.length := by
  induction contents generalizing sent with
  | nil => rfl
  | cons content contents ih =>
    rw [number, List.map_cons, ih, List.length_cons, List.range'_succ]

/-- Numbering does not touch what is said. -/
theorem map_content_number (sent : Nat) (contents : List (Text × Content)) :
    (number sent contents).map (fun m => (m.type, m.content)) = contents := by
  induction contents generalizing sent with
  | nil => rfl
  | cons content contents ih => rw [number, List.map_cons, ih]

end Server

/-! ## Exchanges -/

/-- A request, as far as its response repeats it. -/
structure Request where
  seq : Nat
  command : Text

/-- The requests among what is received, up to the end, and the fault of the stream if that is the
end.  A request to disconnect is the last. -/
def heard : List (Except Error Message) → List Request × Option StreamFault
  | [] => ([], none)
  | .ok ⟨seq, _, .request command _⟩ :: rest =>
    if command = "disconnect" then ([⟨seq, command⟩], none)
    else (⟨seq, command⟩ :: (heard rest).1, (heard rest).2)
  | .error (.stream fault) :: _ => ([], some fault)
  | _ :: rest => heard rest

/-- What is sent because of a request. -/
inductive Exchange (r : Request) : List (Text × Content) → Prop
  /-- A client that introduces itself is told when the server is ready. -/
  | introduced {success : Bool} {message : Option Text} {body : Option Json} :
      r.command = "initialize" →
      Exchange r [("response", .response r.seq success r.command message body),
        ("event", .event "initialized" none)]
  /-- A run that is answered with a log sends the same log as an event. -/
  | traced {success : Bool} {message : Option Text} (log : Log) :
      r.command = "run" →
      Exchange r [("response", .response r.seq success r.command message (some (Body.output log))),
        ("event", .event "output" (some (Body.output log)))]
  /-- Anything else has a response alone. -/
  | answered {success : Bool} {message : Option Text} {body : Option Json} :
      r.command ≠ "initialize" →
      (r.command = "run" → ∀ log, body ≠ some (Body.output log)) →
      Exchange r [("response", .response r.seq success r.command message body)]

/-- A reply without an event is a response alone. -/
theorem Exchange.of_noEvent {seq : Nat} {name : Text} {reply : Reply} (hevent : reply.event = none)
    (hname : name ≠ "initialize") (hrun : name ≠ "run") :
    Exchange ⟨seq, name⟩ (reply.contents seq name) := by
  rw [Reply.contents, hevent]
  exact .answered hname fun h => absurd h hrun

theorem Body.shown_ne_output (document : Text) (id : SurfaceId) (log : Log) :
    Body.shown document id ≠ Body.output log := by
  simp [Body.shown, Body.output]

theorem Body.cancelled_ne_output (log : Log) : Body.cancelled ≠ Body.output log := by
  simp [Body.cancelled, Body.output]

/-- Whatever comes of a run, its reply makes one exchange. -/
theorem Session.exchange_outcomeReply (b : Bench) (outcome : Option Outcome) (seq : Nat) :
    Exchange ⟨seq, "run"⟩ ((outcomeReply b outcome).contents seq "run") := by
  have hrun : ("run" : Text) ≠ "initialize" := by decide
  match outcome with
  | some (.log log) => exact .traced log rfl
  | some (.surface id) =>
    exact .answered hrun fun _ log h => Body.shown_ne_output _ _ log (Option.some.inj h)
  | some .cancelled | none =>
    exact .answered hrun fun _ log h => Body.cancelled_ne_output log (Option.some.inj h)

/-- A command that is carried out makes one exchange. -/
theorem Session.exchange_answer (s : Session) {seq : Nat} {name : Text} {arguments : Option Json}
    {command : Command} (h : Command.read name arguments = .ok command) :
    Exchange ⟨seq, name⟩ ((s.answer command).1.contents seq name) := by
  have hother (hintroduce : command ≠ .introduce) (hrun : command ≠ .run) :
      name ≠ "initialize" ∧ name ≠ "run" := by
    refine ⟨?_, ?_⟩
    · rintro rfl
      exact hintroduce (Except.ok.inj (h.symm.trans (Command.read_introduce arguments)))
    · rintro rfl
      exact hrun (Except.ok.inj (h.symm.trans (Command.read_run arguments)))
  cases command with
  | introduce => exact .introduced (Command.name_of_read h)
  | run =>
    obtain rfl : name = "run" := Command.name_of_read h
    exact exchange_outcomeReply s.run.2.bench s.run.1 seq
  | clear | switchLanguage | edit | insertIndent | highlight | state | disconnect | unknown =>
    obtain ⟨hname, hrun⟩ := hother nofun nofun
    exact .of_noEvent rfl hname hrun

/-! ## Serving -/

namespace Server

/-- A reply takes a number for each of its messages. -/
theorem sent_send (v : Server) (seq : Nat) (name : Text) (reply : Reply) :
    (v.send seq name reply).2.sent = v.sent + (reply.contents seq name).length :=
  congrArg (v.sent + ·) (length_number v.sent _)

/-- What is sent because of a request is one exchange, and the server goes on unless the client
leaves. -/
theorem step_request (v : Server) (seq : Nat) (type name : Text) (arguments : Option Json) :
    ∃ contents v', Exchange ⟨seq, name⟩ contents ∧ v'.sent = v.sent + contents.length ∧
      v.step (.ok ⟨seq, type, .request name arguments⟩) =
        (number v.sent contents, v', if name = "disconnect" then .ended none else .goesOn) := by
  cases hread : Command.read name arguments with
  | ok command =>
    have hleaves : command = .disconnect ↔ name = "disconnect" := by
      constructor
      · rintro rfl
        exact Command.name_of_read hread
      · rintro rfl
        exact Except.ok.inj (hread.symm.trans (Command.read_disconnect arguments))
    refine ⟨_, _, v.session.exchange_answer hread,
      sent_send { v with session := (v.session.answer command).2 } seq name _, ?_⟩
    have hstays : (if decide (command ≠ .disconnect) = true then Status.goesOn else .ended none) =
        if name = "disconnect" then .ended none else .goesOn := by
      simp only [decide_eq_true_eq, ne_eq, ite_not, hleaves]
    rw [step, handle, hread, ← hstays]
    rfl
  | error fault =>
    have hname : name ≠ "initialize" := by
      rintro rfl
      cases hread
    have hrun : name ≠ "run" := by
      rintro rfl
      cases hread
    have hdisconnect : name ≠ "disconnect" := by
      rintro rfl
      cases hread
    let reply : Reply := { success := false, message := some (Error.arguments fault).message }
    have hreply : Exchange ⟨seq, name⟩ (reply.contents seq name) :=
      .of_noEvent rfl hname hrun
    refine ⟨_, _, hreply, sent_send v seq name reply, ?_⟩
    rw [step, handle, hread, if_neg hdisconnect]
    rfl

/-- A fault in the place of a message is passed over, or is one of the stream. -/
def OfInput (result : Except Error Message) : Prop :=
  ∀ e, result = .error e → passesOver e = true ∨ ∃ fault, e = .stream fault

/-- A length that makes no sense is passed over. -/
theorem passesOver_of_readLength {value : Text} {e : Error} (h : readLength value = .error e) :
    passesOver e = true := by
  unfold readLength at h
  split at h
  · cases h
  · cases h
    rfl

/-- A header that announces no length is passed over. -/
theorem passesOver_of_readHeader {announced : Announced} {input rest : Bytes} {e : Error}
    (hannounced : ∀ e, announced = some (.error e) → passesOver e = true)
    (h : readHeader announced input = .ok (some (.error e, rest))) : passesOver e = true := by
  fun_induction readHeader announced input with
  | case1 => cases h
  | case2 => cases h
  | case3 announced b input line _ length hread =>
    obtain ⟨rfl, -⟩ : length = .error e ∧ _ := by simpa using h
    exact hannounced e (eq_of_read_inr hread)
  | case4 announced b input line _ announced' hread ih =>
    refine ih ?_ h
    rcases read_inl hread with rfl | ⟨before, value, -, rfl⟩
    · exact hannounced
    · exact fun e he => passesOver_of_readLength (Option.some.inj he)

/-- Whatever goes wrong with a message is passed over, or is a fault of the stream. -/
theorem ofInput_readMessage {input rest : Bytes} {result : Except Error Message}
    (h : readMessage input = some (result, rest)) : OfInput result := by
  rintro e rfl
  unfold readMessage at h
  split at h
  · next fault _ =>
    cases h
    exact .inr ⟨fault, rfl⟩
  · cases h
  · next length behind hheader =>
    have hbody : (readBody length behind).1 = .error e := congrArg Prod.fst (Option.some.inj h)
    unfold readBody at hbody
    split at hbody
    · cases hbody
      exact .inl (passesOver_of_readHeader (by simp) hheader)
    · split at hbody
      · cases hbody
        exact .inl rfl
      · split at hbody
        · cases hbody
          exact .inr ⟨_, rfl⟩
        · unfold Message.decode at hbody
          split at hbody
          · cases hbody
          · cases hbody
            exact .inl rfl

/-- What is read from a stream is read at some place in it. -/
theorem exists_of_mem_readMessages {input : Bytes} {result : Except Error Message}
    (h : result ∈ readMessages input) : ∃ input rest, readMessage input = some (result, rest) := by
  fun_induction readMessages input with
  | case1 => cases h
  | case2 => cases h
  | case3 b input fault rest hread =>
    obtain rfl := List.mem_singleton.mp h
    exact ⟨_, _, hread⟩
  | case4 b input result' rest hstream hread ih =>
    rcases List.mem_cons.mp h with rfl | h
    · exact ⟨_, _, hread⟩
    · exact ih h

theorem ofInput_readMessages (input : Bytes) : ∀ result ∈ readMessages input, OfInput result := by
  intro result hresult
  obtain ⟨input, rest, hread⟩ := exists_of_mem_readMessages hresult
  exact ofInput_readMessage hread

/-- **A run of exchanges**: however the service goes on, it answers what is heard, and ends as the
stream does. -/
theorem run_exchanges (v : Server) {received : List (Except Error Message)}
    (hreceived : ∀ result ∈ received, OfInput result) :
    (v.run received).2.2 = (heard received).2.map .stream ∧
      ∃ blocks, List.Forall₂ Exchange (heard received).1 blocks ∧
        (v.run received).1 = number v.sent blocks.flatten := by
  induction received generalizing v with
  | nil => exact ⟨rfl, [], .nil, rfl⟩
  | cons result rest ih =>
    have hrest := fun v =>
      ih v fun result hresult => hreceived result (List.mem_cons_of_mem _ hresult)
    match result with
    | .ok ⟨seq, type, .request name arguments⟩ =>
      obtain ⟨contents, v', hexchange, hsent, hstep⟩ := v.step_request seq type name arguments
      rw [run, hstep, heard]
      by_cases hname : name = "disconnect"
      · rw [if_pos hname, if_pos hname]
        exact ⟨rfl, [contents], .cons hexchange .nil, by simp⟩
      · rw [if_neg hname, if_neg hname]
        obtain ⟨hending, blocks, hblocks, hmessages⟩ := hrest v'
        refine ⟨hending, contents :: blocks, .cons hexchange hblocks, ?_⟩
        rw [List.flatten_cons, number_append, ← hsent, ← hmessages]
    | .ok ⟨seq, type, .response _ _ _ _ _⟩ => exact hrest v
    | .ok ⟨seq, type, .event _ _⟩ => exact hrest v
    | .error e =>
      rcases hreceived _ List.mem_cons_self e rfl with hpassed | ⟨fault, rfl⟩
      · cases e with
        | malformedJson | arguments | protocol => exact hrest v
        | _ => cases hpassed
      · exact ⟨rfl, [], .nil, rfl⟩

/-- **Every request gets one response**, and nothing else is sent: the service ends as the stream
does or with the client's leave, what it sends is one exchange for each request that is heard, in
order, and the messages are numbered from 1 on. -/
theorem serve_exchanges (settings : Settings) (refusals : Refusals) (input : Bytes) :
    let (requests, ending) := heard (readMessages input)
    let (messages, _, fault) := serve (Session.new settings { refusals }) input
    fault = ending.map .stream ∧
      (∃ blocks, List.Forall₂ Exchange requests blocks ∧
        messages.map (fun m => (m.type, m.content)) = blocks.flatten) ∧
      messages.map (·.seq) = List.range' 1 messages.length := by
  obtain ⟨hending, blocks, hblocks, hmessages⟩ :=
    run_exchanges { session := Session.new settings { refusals } } (ofInput_readMessages input)
  dsimp only [serve]
  refine ⟨hending, ⟨blocks, hblocks, ?_⟩, ?_⟩
  · rw [hmessages, map_content_number]
  · rw [hmessages, map_seq_number, length_number]

end Server
end Workbench
