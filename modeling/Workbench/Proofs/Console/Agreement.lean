import Workbench.Proofs.Console.Order
import Workbench.Proofs.Trace.Call
import Workbench.Proofs.Wire.Cut

/-!
# Proofs/Console/Agreement — a user and a client who ask for the same get the same

Orders can be given at a console, a line each, or to a server, a request each.  Either way they end
with one session, and what the console prints can be read off the responses of the server
(`front_ends_agree`).  The one thing that sets them apart is the size of a request: one that is too
long for the wire is dropped, and no line is too long for a console (`edit_dropped`).
-/

namespace Workbench

/-! ## All orders -/

/-- The input of a console to which orders are given, a line each. -/
def Order.input (orders : List Order) : Bytes := Text.encode (orders.flatMap typed)

/-- The input of a server that gets requests for orders, a frame each. -/
def Errand.input (errands : List Errand) : Bytes := Message.stream (errands.map message)

/-- A console carries an order out and goes on. -/
theorem Order.converse_input (files : Files) (s : Session) (o : Order) (orders : List Order) :
    Console.converse files s (input (o :: orders)) =
      let r := Console.perform files s o.instruction
      let d := Console.converse files r.session (input orders)
      ⟨r.out ++ d.out, Console.prompt s ++ r.err ++ d.err, d.session, d.fault⟩ := by
  have hsplit : input (o :: orders) = Text.encode o.typed ++ input orders := by
    rw [input, List.flatMap_cons, Text.encode_append]
    rfl
  have hrespond : Console.respond files s o.typed = Console.perform files s o.instruction := by
    rw [Console.respond, o.readLine_typed]
  have hstays : (Console.perform files s o.instruction).stays = true := by
    rw [o.perform_instruction]
  rw [typed] at hsplit hrespond
  rw [hsplit, Console.converse_line o.feed_notMem_joined_ways]
  dsimp only
  rw [hrespond, if_pos hstays]

/-- The session at the end of a console is what the orders make of it. -/
theorem Order.session_converse (files : Files) (s : Session) (orders : List Order) :
    (Console.converse files s (input orders)).session =
      orders.foldl (fun s o => (s.answer o.command).2) s := by
  induction orders generalizing s with
  | nil => rw [input, List.flatMap_nil, Text.encode_nil, Console.converse]; rfl
  | cons o orders ih => rw [converse_input, List.foldl_cons, ← ih, o.perform_instruction]

/-! ## Edits -/

/-- The request for an edit is longer by its text than it would be without, if the text is written
as it is. -/
theorem Errand.bytes_edit (seq : UInt64) {t : Text} (h : ∀ c ∈ t, Json.escapedChar c = [c]) :
    Text.bytes (Errand.mk seq (.edit t)).message.toJson.print =
      Text.bytes (Errand.mk seq (.edit [])).message.toJson.print + Text.bytes t :=
  Json.bytes_object_text
    [("seq", .ofNat seq.toNat), ("type", .string "request"), ("command", .string "edit")] []
    "arguments" "text" h

/-- A source of one line that opens no parenthesis prints nothing. -/
theorem trace_python_of_notMem {t : Text} (hfeed : '\n' ∉ t) (hopening : '(' ∉ t) :
    trace .python t = Dialect.python.opening ++ Dialect.python.closing := by
  have hnone : Dialect.python.argument? t = none := by
    by_contra hsome
    obtain ⟨argument, hargument⟩ := Option.ne_none_iff_exists'.mp hsome
    obtain ⟨before, behind, hcut, -⟩ := Dialect.pythonArgument?_eq_some_iff.mp hargument
    exact hopening (hcut.split ▸ by simp)
  rw [trace_eq rfl, Dialect.body_of_notMem hfeed, Dialect.lineEntries_of_none hnone,
    List.append_nil]

/-! ## Agreement -/

/-- A console and a server agree: they end with one session and no fault, and what the console
prints is what is printed of the messages of the server. -/
structure Agreement (d : Console.Dialogue) (served : List Message × Server × Option Error) :
    Prop where
  session : d.session = served.2.1.session
  out : d.out = served.1.flatMap Message.printed
  consoleEnds : d.fault = none
  serverEnds : served.2.2 = none

/-- Wherever a service stands, it goes on as a console does that is given the orders of the requests
that fit. -/
theorem Errand.run_agrees (files : Files) (v : Server) {errands : List Errand}
    (h : ∀ e ∈ errands, Text.bytes e.message.toJson.print < 2 ^ 64) :
    Agreement
      (Console.converse files v.session (Order.input ((errands.filter fits).map (·.order))))
      (v.run (readMessages (input errands))) := by
  induction errands generalizing v with
  | nil =>
    have hserver : v.run (readMessages (input [])) = ([], v, none) := by
      rw [input, List.map_nil, Message.stream, List.flatMap_nil, readMessages]
      rfl
    have hconsole : Console.converse files v.session (Order.input []) =
        ⟨[], Console.prompt v.session, v.session, none⟩ := by
      rw [Order.input, List.flatMap_nil, Text.encode_nil, Console.converse]
    rw [hserver]
    show Agreement (Console.converse files v.session (Order.input [])) _
    rw [hconsole]
    exact ⟨rfl, rfl, rfl, rfl⟩
  | cons e errands ih =>
    obtain ⟨hcounted, hrest⟩ := List.forall_mem_cons.mp h
    have hsplit : input (e :: errands) = Text.encode e.message.frame ++ input errands :=
      Message.stream_cons _ _
    cases hfits : e.fits with
    | false =>
      rw [List.filter_cons_of_neg (by simp [hfits]), hsplit, e.run_of_not_fits hfits hcounted]
      exact ih v hrest
    | true =>
      have hread := Wire.readMessages_cons ((e.sendable hfits).readMessage_frame (input errands))
        (by simp)
      rw [List.filter_cons_of_pos hfits, List.map_cons, hsplit, hread, e.run_message,
        Order.converse_input]
      have hnext := ih (v.behind e.call) hrest
      rw [e.session_behind v files] at hnext
      refine ⟨hnext.session, ?_, hnext.consoleEnds, hnext.serverEnds⟩
      rw [List.flatMap_append, e.printed_answerTo v files, ← hnext.out]

/-- **Both front ends agree**: wherever they begin, a console that is given orders and a server that
gets requests for them end with the same session, and the console prints what can be read off the
responses, in order.  Only a request that is too long for the wire is none for the server. -/
theorem front_ends_agree (files : Files) (s : Session) {errands : List Errand}
    (h : ∀ e ∈ errands, Text.bytes e.message.toJson.print < 2 ^ 64) :
    Agreement (Console.converse files s (Order.input ((errands.filter Errand.fits).map (·.order))))
      (Server.serve s (Errand.input errands)) :=
  Errand.run_agrees files { session := s } h

/-- An edit with quotes, a backslash, an empty line and letters beyond ASCII, typed and sent, and run
on a surface. -/
theorem front_ends_agree_quoted :
    let files : Files := fun _ => .error .noSuchFile
    let s := Session.new { language := .python } { refusals := .none }
    let text : Text := "# it's \\'\n\n\té\u2028\""
    let errands : List Errand := [⟨0, .switchLanguage .html⟩, ⟨1, .edit text⟩, ⟨2, .run⟩,
      ⟨2, .insertIndent (2 ^ 64 - 1)⟩, ⟨2 ^ 64 - 1, .highlight⟩, ⟨3, .clear⟩]
    (Order.edit text).typed = "edit '# it'\\''s \\'\\''' '' '\té\u2028\"'\n" ∧
      (∀ e ∈ errands, Text.bytes e.message.toJson.print < 2 ^ 64) ∧
      Agreement (Console.converse files s (Order.input (errands.map (·.order))))
        (Server.serve s (Errand.input errands)) := by
  intro files s text errands
  have hshort : ∀ e ∈ errands, Text.bytes e.message.toJson.print ≤ 256 := by
    have hall : errands.all (fun e => Text.bytes e.message.toJson.print ≤ 256) = true := by
      decide +kernel
    exact fun e he => of_decide_eq_true (List.all_eq_true.mp hall e he)
  have hcounted : ∀ e ∈ errands, Text.bytes e.message.toJson.print < 2 ^ 64 := fun e he =>
    Nat.lt_of_le_of_lt (hshort e he) (by decide)
  have hfits : errands.filter Errand.fits = errands :=
    List.filter_eq_self.mpr fun e he =>
      decide_eq_true (Nat.le_trans (hshort e he) (by decide : 256 ≤ maxBody))
  have hagree := front_ends_agree files s hcounted
  rw [hfits] at hagree
  exact ⟨by decide, hcounted, hagree⟩

/-- **An edit that is too long is dropped** by a server and carried out by a console: a run prints
what stood there before, or nothing. -/
theorem edit_dropped :
    let files : Files := fun _ => .error .noSuchFile
    let s := Session.new { language := .python } { refusals := .none }
    let text : Text := List.replicate (maxBody + 1) 'a'
    let errands : List Errand :=
      [⟨1, .edit "print(1)"⟩, ⟨2, .edit text⟩, ⟨3, .run⟩, ⟨4, .edit []⟩]
    (∀ e ∈ errands, Text.bytes e.message.toJson.print < 2 ^ 64) ∧
      ¬ Agreement (Console.converse files s (Order.input (errands.map (·.order))))
        (Server.serve s (Errand.input errands)) := by
  intro files s text errands
  have hplain {c : Char} (hc : c ∈ text) : c = 'a' := List.eq_of_mem_replicate hc
  have hlength : Text.bytes (Errand.mk 2 (.edit text)).message.toJson.print = maxBody + 68 := by
    have hbytes : Text.bytes text = maxBody + 1 := by
      rw [Text.bytes_replicate]
      rfl
    have hempty : Text.bytes (Errand.mk 2 (.edit [])).message.toJson.print = 67 := by decide
    rw [Errand.bytes_edit 2 fun c hc => by rw [hplain hc]; rfl, hempty, hbytes]
    decide
  have hcounted : ∀ e ∈ errands, Text.bytes e.message.toJson.print < 2 ^ 64 := by
    simp only [errands, List.forall_mem_cons, hlength]
    decide
  have hlong : Errand.fits ⟨2, .edit text⟩ = false := by
    rw [Errand.fits, hlength]
    decide
  have hfits : errands.filter Errand.fits =
      [⟨1, .edit "print(1)"⟩, ⟨3, .run⟩, ⟨4, .edit []⟩] := by
    rw [List.filter_cons_of_pos rfl, List.filter_cons_of_neg (by simp [hlong])]
    rfl
  refine ⟨hcounted, fun hagree => ?_⟩
  -- The console has carried out all orders, and the server those that fit.
  have hserved := Errand.run_agrees files { session := s } hcounted
  have hsessions := hagree.session.trans hserved.session.symm
  rw [hfits, Order.session_converse, Order.session_converse] at hsessions
  have hlogs : trace .python text = trace .python "print(1)" :=
    congrArg (fun s => s.bench.log) hsessions
  rw [trace_python_of_notMem (fun h => absurd (hplain h) (by decide))
    (fun h => absurd (hplain h) (by decide))] at hlogs
  exact absurd (congrArg List.length hlogs) (by decide)

end Workbench
