import Workbench.Proofs.Highlight.Extent
import Workbench.Proofs.Json.Size
import Workbench.Proofs.Session.Meter
import Workbench.Proofs.Wire.Conversation
import Workbench.Proofs.Wire.Report

/-!
# Proofs/Wire/Sent — what a server sends can be read

A message can be sent if what it carries is a `Report`, for it adds one object around that
(`Message.depth_toJson_le`).  The numbers that a server tells are bounded by what it tells along
with them: an offset by the length of a source in the same body, a surface by the number of the
message itself (`Session.Metered.report`).  So every message of a server that is short enough for a
frame survives the wire, like every message of anybody else (`Message.survives_wire`).  A server
does not look at the length of what it sends: it writes longer messages as well, and nobody can read
them (`Message.state_unreadable`).
-/

namespace Workbench

open Text (bytes)

/-! ## What a message carries -/

/-- The value that is carried. -/
def Content.carried : Content → Option Json
  | .response _ _ _ _ body => body
  | .event _ body => body
  | .request _ arguments => arguments

namespace Message

variable {m : Message} {content : Content} {member : Text × Json} {v : Json} {d : Nat}

theorem exists_of_carried (h : content.carried = some v) :
    ∃ key, (key, v) ∈ contentMembers content := by
  cases content with
  | response requestSeq success name message body =>
    obtain rfl : body = some v := h
    exact ⟨"body", by simp [contentMembers, optionalMember]⟩
  | event name body =>
    obtain rfl : body = some v := h
    exact ⟨"body", by simp [contentMembers, optionalMember]⟩
  | request name arguments =>
    obtain rfl : arguments = some v := h
    exact ⟨"arguments", by simp [contentMembers, optionalMember]⟩

/-- All other members are plain. -/
theorem carried_or_depth_eq_zero (h : member ∈ contentMembers content) :
    content.carried = some member.2 ∨ member.2.depth = 0 := by
  have hplain {key : Text} {value : Option Json} (h : member ∈ optionalMember key value) :
      value = some member.2 := by
    obtain ⟨v, hv, rfl⟩ := List.mem_map.mp h
    exact Option.mem_toList.mp hv
  cases content with
  | response requestSeq success name message body =>
    rcases List.mem_cons.mp h with rfl | h
    · exact .inr rfl
    rcases List.mem_cons.mp h with rfl | h
    · exact .inr rfl
    rcases List.mem_cons.mp h with rfl | h
    · exact .inr rfl
    rcases List.mem_append.mp h with h | h
    · obtain ⟨text, -, hvalue⟩ := Option.map_eq_some_iff.mp (hplain h)
      exact .inr (hvalue ▸ rfl)
    · exact .inl (hplain h)
  | event name body | request name body =>
    rcases List.mem_cons.mp h with rfl | h
    · exact .inr rfl
    · exact .inl (hplain h)

/-- A message is longer than what it carries. -/
theorem bytes_carried_le (h : m.content.carried = some v) :
    bytes v.print ≤ bytes m.toJson.print := by
  obtain ⟨key, hmem⟩ := exists_of_carried h
  exact Json.bytes_le_print_object (List.mem_cons_of_mem _ (List.mem_cons_of_mem _ hmem))

/-- A message is one object around what it carries. -/
theorem depth_toJson_le (h : ∀ v ∈ m.content.carried, v.depth ≤ d) : m.toJson.depth ≤ d + 1 := by
  refine Nat.succ_le_succ (Json.depthMembers_le_iff.mpr (List.forall_mem_cons.mpr
    ⟨Nat.zero_le d, List.forall_mem_cons.mpr ⟨Nat.zero_le d, fun member hmember => ?_⟩⟩))
  rcases carried_or_depth_eq_zero hmember with hcarried | hzero
  · exact h _ hcarried
  · rw [hzero]
    exact Nat.zero_le d

end Message

/-! ## What a server tells -/

/-- The values that an answer carries, in the response and in the event. -/
def Reply.values (r : Reply) : List Json := r.body.toList ++ (r.event.bind Prod.snd).toList

namespace Session

variable {s : Session} {n : Nat} {v : Json}

/-- Every request leaves the numbers bounded, with one more surface at most. -/
theorem Metered.attend (h : s.Metered n) (c : Call) : (s.attend c).Metered (n + 1) := by
  cases hcommand : c.command with
  | error fault =>
    rw [attend_of_error hcommand]
    exact h.mono (Nat.le_succ n)
  | ok command =>
    rw [attend_of_ok hcommand]
    cases command with
    | run => exact h.run
    | clear => exact h.clear.mono (Nat.le_succ n)
    | switchLanguage l => exact (h.switchLanguage l).mono (Nat.le_succ n)
    | edit text => exact (h.edit text).mono (Nat.le_succ n)
    | insertIndent start stop => exact (h.insertIndent start stop).mono (Nat.le_succ n)
    | introduce | highlight | state | disconnect | unknown => exact h.mono (Nat.le_succ n)

/-- A run is answered with what can be read. -/
theorem Metered.report_run (h : s.Metered n) (hn : n + 1 < 2 ^ 64)
    (hv : v ∈ (s.answer .run).1.values) : v.Report := by
  have hreply : (s.answer .run).1 = outcomeReply s.run.2.bench s.run.1 := rfl
  rw [hreply] at hv
  match houtcome : s.run.1 with
  | some (.log log) =>
    obtain rfl : v = Body.output log := by simpa [houtcome, outcomeReply, Reply.values] using hv
    exact Body.report_output log
  | some (.surface id) =>
    obtain rfl : v = Body.shown s.run.2.bench.source id := by
      simpa [houtcome, outcomeReply, Reply.values] using hv
    have hid := h.toAtRest.surface_le houtcome
    exact Body.report_shown _ (Nat.lt_of_le_of_lt (Nat.le_trans hid h.run.mounted) hn)
  | some .cancelled | none =>
    obtain rfl : v = Body.cancelled := by simpa [houtcome, outcomeReply, Reply.values] using hv
    exact Body.report_cancelled

/-- The caret is bounded by a source that is told along with it. -/
theorem Metered.caret_lt (h : s.Metered n) {members : Json.Members}
    (hsource : ("source".toList, .string s.bench.source) ∈ members)
    (hsize : bytes (Json.object members).print < 2 ^ 64) : s.bench.caret < 2 ^ 64 :=
  calc s.bench.caret ≤ bytes s.bench.source := h.caret
    _ ≤ bytes (Json.object members).print := Json.bytes_le_of_string _ hsource
    _ < 2 ^ 64 := hsize

/-- Spans are bounded by the markup that is told along with them. -/
theorem report_highlight (hsize : bytes (Body.highlighting s.markup
    (Highlight.tokenize s.bench.language s.bench.source)).print < 2 ^ 64) :
    (Body.highlighting s.markup (Highlight.tokenize s.bench.language s.bench.source)).Report := by
  have hmarkup : bytes s.markup ≤ bytes (Body.highlighting s.markup
      (Highlight.tokenize s.bench.language s.bench.source)).print :=
    Json.bytes_le_of_string "markup" (by simp)
  have hsource : bytes s.bench.source ≤ bytes s.markup := Highlight.bytes_le_markup _ _
  refine Body.report_highlighting _ fun span hspan => ?_
  have hbounds := Highlight.bounds_of_mem_tokenize hspan
  omega

/-- **What a server tells can be read**, if it is no longer than 64 bits can count. -/
theorem Metered.report (h : s.Metered n) (hn : n + 1 < 2 ^ 64) {c : Call}
    (hv : v ∈ (s.reply c).values) (hsize : bytes v.print < 2 ^ 64) : v.Report := by
  cases hcommand : c.command with
  | error fault =>
    rw [reply, hcommand] at hv
    cases hv
  | ok command =>
    have hreply : s.reply c = (s.answer command).1 := by rw [reply, hcommand]
    rw [hreply] at hv
    cases command with
    | run => exact h.report_run hn hv
    | introduce =>
      obtain rfl := List.mem_singleton.mp hv
      exact Body.report_introduction h.delay
    | switchLanguage l =>
      obtain rfl := List.mem_singleton.mp hv
      exact Body.report_switched _
    | insertIndent start stop =>
      obtain rfl := List.mem_singleton.mp hv
      exact Body.report_indented ((h.insertIndent start stop).caret_lt (by simp) hsize)
    | state =>
      obtain rfl := List.mem_singleton.mp hv
      exact Body.report_state (h.caret_lt (by simp) hsize)
    | highlight =>
      obtain rfl := List.mem_singleton.mp hv
      exact report_highlight hsize
    | clear | edit | disconnect | unknown => cases hv

end Session

/-! ## Numbers of messages that are read -/

namespace Message

variable {m : Message}

theorem mem_of_required {key : Text} {members : Json.Members} {v : Json}
    (h : required key members = some v) : (key, v) ∈ members := by
  rw [required, filter_eq_under] at h
  split at h
  · next k value hunder =>
    cases h
    obtain ⟨hmem, hkey⟩ := List.mem_filter.mp (hunder ▸ List.mem_singleton_self (k, v))
    obtain rfl : k = key := by simpa using hkey
    exact hmem
  · cases h

/-- A number that is read is within 64 bits. -/
theorem seq_lt_of_decode {body : Bytes} (h : decode body = .ok m) : m.seq < 2 ^ 64 := by
  unfold decode at h
  split at h
  · next hdecoded =>
    cases h
    obtain ⟨json, hjson, hmessage⟩ := Option.bind_eq_some_iff.mp hdecoded
    obtain ⟨t, -, hread⟩ := Option.bind_eq_some_iff.mp hjson
    cases json with
    | object members =>
      obtain ⟨seq, hseq, hmessage⟩ := Option.bind_eq_some_iff.mp hmessage
      obtain ⟨type, -, hmessage⟩ := Option.bind_eq_some_iff.mp hmessage
      obtain ⟨content, -, hmessage⟩ := Option.bind_eq_some_iff.mp hmessage
      cases hmessage
      obtain ⟨v, hv, hnat⟩ := Option.bind_eq_some_iff.mp hseq
      obtain rfl : v = .ofNat seq := by
        unfold asNat at hnat
        split at hnat
        · cases hnat
          rfl
        · cases hnat
      exact Json.natural_of_read? hread (mem_of_required hv)
    | null | bool | number | string | array => cases hmessage
  · cases h

theorem seq_lt_of_mem_readMessages {input : Bytes} (h : .ok m ∈ readMessages input) :
    m.seq < 2 ^ 64 := by
  obtain ⟨input, rest, hread⟩ := Server.exists_of_mem_readMessages h
  unfold readMessage at hread
  split at hread
  · cases hread
  · cases hread
  · next length behind _ =>
    have hbody : (readBody length behind).1 = .ok m := congrArg Prod.fst (Option.some.inj hread)
    unfold readBody at hbody
    split at hbody
    · cases hbody
    · split at hbody
      · cases hbody
      · split at hbody
        · cases hbody
        · exact seq_lt_of_decode hbody

end Message

/-! ## Messages that are sent -/

section Contents

variable {r : Reply} {seq : Nat} {name type : Text} {content : Content} {v : Json}

/-- What a message of a reply carries, the reply tells. -/
theorem Reply.mem_values (h : (type, content) ∈ r.contents seq name)
    (hv : content.carried = some v) : v ∈ r.values := by
  rcases List.mem_cons.mp h with heq | h
  · cases heq
    exact List.mem_append_left _ (Option.mem_toList.mpr hv)
  · obtain ⟨event, hevent, heq⟩ := List.mem_map.mp h
    cases heq
    refine List.mem_append_right _ (Option.mem_toList.mpr ?_)
    rw [Option.mem_toList.mp hevent]
    exact hv

theorem Reply.sendable_of_mem_contents (h : (type, content) ∈ r.contents seq name)
    (hseq : seq < 2 ^ 64) (hpayload : ∀ v ∈ content.carried, v.Payload) : content.Sendable := by
  rcases List.mem_cons.mp h with heq | h
  · cases heq
    exact ⟨hseq, hpayload⟩
  · obtain ⟨event, -, heq⟩ := List.mem_map.mp h
    cases heq
    exact hpayload

end Contents

variable {m : Message}

theorem Server.of_mem_number {sent : Nat} {contents : List (Text × Content)}
    (h : m ∈ number sent contents) : sent < m.seq ∧ (m.type, m.content) ∈ contents := by
  have hseq : m.seq ∈ (number sent contents).map (·.seq) := List.mem_map_of_mem h
  have hcontent : (m.type, m.content) ∈ (number sent contents).map fun m => (m.type, m.content) :=
    List.mem_map_of_mem h
  rw [map_seq_number] at hseq
  rw [map_content_number] at hcontent
  exact ⟨(List.mem_range'_1.mp hseq).1, hcontent⟩

/-- Every message of an answer can be sent, if it is short enough for a frame. -/
theorem Session.Metered.sendable {s : Session} {n : Nat} (h : s.Metered n) {c : Call}
    (hc : c.seq < 2 ^ 64) (hm : m ∈ Server.number n ((s.reply c).contents c.seq c.name))
    (hseq : m.seq < 2 ^ 64) (hsize : bytes m.toJson.print ≤ maxBody) : m.Sendable := by
  obtain ⟨hsent, hcontent⟩ := Server.of_mem_number hm
  have hreport : ∀ v ∈ m.content.carried, v.Report := by
    intro v hv
    have hbytes : bytes v.print ≤ maxBody := Nat.le_trans (Message.bytes_carried_le hv) hsize
    exact h.report (Nat.lt_of_le_of_lt hsent hseq) (Reply.mem_values hcontent hv)
      (Nat.lt_of_le_of_lt hbytes (by decide))
  exact {
    seq := hseq
    content := Reply.sendable_of_mem_contents hcontent hc fun v hv => (hreport v hv).toPayload
    depth := Nat.lt_of_le_of_lt (Message.depth_toJson_le fun v hv => (hreport v hv).depth)
      (by decide)
    size := hsize }

/-- **A run sends what can be read**, however the service goes on. -/
theorem Server.run_sendable (v : Server) (hv : v.session.Metered v.sent)
    {received : List (Except Error Message)} (hreceived : ∀ m, .ok m ∈ received → m.seq < 2 ^ 64)
    (hm : m ∈ (v.run received).1) (hseq : m.seq < 2 ^ 64)
    (hsize : bytes m.toJson.print ≤ maxBody) : m.Sendable := by
  induction received generalizing v with
  | nil => cases hm
  | cons result rest ih =>
    have hrest := fun v hv =>
      ih v hv fun m hmem => hreceived m (List.mem_cons_of_mem _ hmem)
    match result with
    | .ok ⟨seq, type, .request name arguments⟩ =>
      let c : Call := ⟨seq, name, arguments⟩
      have hc : c.seq < 2 ^ 64 := hreceived _ List.mem_cons_self
      rw [run, v.step_request_eq c] at hm
      by_cases hname : name = "disconnect"
      · rw [if_pos hname] at hm
        exact hv.sendable hc hm hseq hsize
      · rw [if_neg hname] at hm
        rcases List.mem_append.mp hm with hm | hm
        · exact hv.sendable hc hm hseq hsize
        · exact hrest ⟨v.session.attend c, _⟩ ((hv.attend c).mono (by simp [Reply.contents])) hm
    | .ok ⟨seq, type, .response _ _ _ _ _⟩ => exact hrest v hv hm
    | .ok ⟨seq, type, .event _ _⟩ => exact hrest v hv hm
    | .error e =>
      rw [run, step] at hm
      cases hpassed : passesOver e with
      | true =>
        rw [hpassed, if_pos rfl] at hm
        exact hrest v hv hm
      | false =>
        rw [hpassed, if_neg Bool.false_ne_true] at hm
        cases hm

/-- **Messages survive the wire**: whatever a message says, what is read from its frame is the
message, and nothing behind the frame is touched.  Of the messages of a server, whose numbers are
within 64 bits, just those are such messages that fit in a frame. -/
theorem Message.survives_wire :
    (∀ m : Message, m.Sendable → ∀ rest,
      readMessage (Text.encode m.frame ++ rest) = some (.ok m, rest)) ∧
    (∀ (settings : Settings) (refusals : Refusals) (input : Bytes),
      settings.runDelay < 2 ^ 64 →
      ∀ m ∈ (Server.serve (Session.new settings { refusals }) input).1, m.seq < 2 ^ 64 →
        (m.Sendable ↔ bytes m.toJson.print ≤ maxBody)) := by
  refine ⟨fun m hm rest => hm.readMessage_frame rest, ?_⟩
  intro settings refusals input hdelay m hm hseq
  refine ⟨fun hsendable => hsendable.size, fun hsize => ?_⟩
  exact Server.run_sendable { session := Session.new settings { refusals } }
    (.new hdelay refusals) (fun _ => seq_lt_of_mem_readMessages) hm hseq hsize

/-- A text with a quote, a line feed and a letter beyond ASCII goes to a server and comes back. -/
theorem Message.survives_wire_edited :
    let edit : Message :=
      ⟨2 ^ 64 - 1, "request", .request "edit" (some (.object [("text", .string "é\n\"")]))⟩
    let ask : Message := ⟨2, "request", .request "state" none⟩
    let state : Bench := ⟨.python, "é\n\"", [], false, 0⟩
    let told : Message := ⟨2, "response", .response 2 true "state" none (some (Body.state state))⟩
    let s := Session.new { language := .python } { refusals := .none }
    let input := [edit, ask].flatMap fun m => Text.encode m.frame
    (edit.Sendable ∧ readMessage (Text.encode edit.frame ++ [10]) = some (.ok edit, [10])) ∧
      s.settings.runDelay < 2 ^ 64 ∧ told ∈ (Server.serve s input).1 ∧ told.seq < 2 ^ 64 ∧
      bytes told.toJson.print ≤ maxBody ∧ told.Sendable := by
  intro edit ask state told s input
  have hshort {t : Text} (h : bytes t ≤ 256) : bytes t ≤ maxBody := Nat.le_trans h (by decide)
  have hedit : edit.Sendable := by
    refine ⟨by decide, ?_, by decide, hshort (by decide)⟩
    rintro v ⟨⟩
    exact (Json.report_text "text" _).toPayload
  have hask : ask.Sendable := ⟨by decide, nofun, by decide, hshort (by decide)⟩
  have hread : readMessages input = [.ok edit, .ok ask] :=
    readMessages_frames (List.forall_mem_cons.mpr ⟨hedit, List.forall_mem_singleton.mpr hask⟩)
  have htold : told ∈ (Server.serve s input).1 := by
    rw [Server.serve, hread]
    exact List.mem_cons_of_mem _ List.mem_cons_self
  have hsize : bytes told.toJson.print ≤ maxBody := hshort (by decide +kernel)
  exact ⟨⟨hedit, survives_wire.1 edit hedit [10]⟩, by decide, htold, by decide, hsize,
    (survives_wire.2 { language := .python } .none input (by decide) told htold (by decide)).mpr
      hsize⟩

/-- **A server tells what nobody can read**: an edit that just fits in a frame makes a state that
does not, and the state is told all the same. -/
theorem Message.state_unreadable :
    let text : Text := List.replicate (maxBody - 67) 'a'
    let edit (t : Text) : Message :=
      ⟨1, "request", .request "edit" (some (.object [("text", .string t)]))⟩
    let ask : Message := ⟨2, "request", .request "state" none⟩
    let told (t : Text) : Message :=
      ⟨2, "response", .response 2 true "state" none (some (Body.state ⟨.python, t, [], false, 0⟩))⟩
    let s := Session.new { language := .python } { refusals := .none }
    let input := [edit text, ask].flatMap fun m => Text.encode m.frame
    (edit text).Sendable ∧ ask.Sendable ∧ told text ∈ (Server.serve s input).1 ∧
      ∀ rest, ∃ fault,
        readMessage (Text.encode (told text).frame ++ rest) = some (.error fault, rest) := by
  intro text edit ask told s input
  have hbytes : bytes text = maxBody - 67 := by
    rw [Text.bytes_replicate]
    rfl
  have hplain : ∀ c ∈ text, Json.escapedChar c = [c] := by
    intro c hc
    rw [List.eq_of_mem_replicate hc]
    rfl
  have heditSize : bytes (edit text).toJson.print = maxBody := by
    have hempty : bytes (edit []).toJson.print = 67 := by decide
    have hlonger : bytes (edit text).toJson.print = bytes (edit []).toJson.print + bytes text :=
      Json.bytes_object_text
        [("seq", .ofNat 1), ("type", .string "request"), ("command", .string "edit")] []
        "arguments" "text" hplain
    rw [hlonger, hempty, hbytes]
    decide
  have htoldSize : bytes (told text).toJson.print = maxBody + 86 := by
    have hempty : bytes (told []).toJson.print = 153 := by decide +kernel
    have hlonger : bytes (told text).toJson.print = bytes (told []).toJson.print + bytes text :=
      Json.bytes_object_text
        [("seq", .ofNat 2), ("type", .string "response"), ("request_seq", .ofNat 2),
          ("success", .bool true), ("command", .string "state")]
        [("cursor", .ofNat 0), ("language", .string "python"), ("log", .array []),
          ("running", .bool false)] "body" "source" hplain
    rw [hlonger, hempty, hbytes]
    decide
  have hedit : (edit text).Sendable := by
    refine ⟨by decide, ?_, (by decide : 2 < 128), heditSize.le⟩
    rintro v ⟨⟩
    exact (Json.report_text "text" _).toPayload
  have hask : ask.Sendable := by
    have hsize : bytes ask.toJson.print ≤ 256 := by decide
    exact ⟨by decide, nofun, by decide, hsize.trans (by decide)⟩
  have hread : readMessages input = [.ok (edit text), .ok ask] :=
    readMessages_frames (List.forall_mem_cons.mpr ⟨hedit, List.forall_mem_singleton.mpr hask⟩)
  have htold : told text ∈ (Server.serve s input).1 := by
    rw [Server.serve, hread]
    exact List.mem_cons_of_mem _ List.mem_cons_self
  have hlong : maxBody < bytes (told text).toJson.print := by
    rw [htoldSize]
    decide
  have hcounted : bytes (told text).toJson.print < 2 ^ 64 := by
    rw [htoldSize]
    decide
  exact ⟨hedit, hask, htold, fun rest =>
    ⟨_, (told text).readMessage_frame_of_long hlong hcounted rest⟩⟩

end Workbench
