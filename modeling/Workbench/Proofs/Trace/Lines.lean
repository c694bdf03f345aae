import Workbench.Proofs.Text.Pieces
import Workbench.Proofs.Text.Scan
import Workbench.Trace.Dialect

/-!
# Proofs/Trace/Lines — a trace is read off a source line by line

What a line shows depends on that line alone, so the trace of a source is the traces of its lines
one after the other, between what is said before and behind every run (`trace_lines`).  A line may
show several entries, but an entry is always one line: the texts that a dialect presents hold no
line feed, whatever the print call asks for.
-/

namespace Workbench

namespace Dialect

variable {l : Language} {d : Dialect}

/-! ## Lines -/

/-- A line feed cuts a trace in two. -/
theorem body_append (d : Dialect) (before behind : Text) :
    d.body (before ++ '\n' :: behind) = d.body before ++ d.body behind := by
  rw [body, body, body, Text.pieces_append, List.flatMap_append]

/-- A source without a line feed is one line. -/
theorem body_of_notMem {line : Text} (h : '\n' ∉ line) : d.body line = d.lineEntries line := by
  rw [body, Text.pieces_of_notMem h, List.flatMap_singleton]

theorem body_joined {lines : List Text} (hlines : lines ≠ []) (h : ∀ line ∈ lines, '\n' ∉ line) :
    d.body (Text.joined ['\n'] lines) = lines.flatMap d.lineEntries := by
  rw [body, Text.pieces_joined hlines h]

/-! ## Entries -/

/-- What Java shows of an argument has no line feed in it. -/
theorem notMem_javaPresent (t : Text) : ∀ shown ∈ javaPresent t, '\n' ∉ shown := by
  intro shown hshown
  unfold javaPresent at hshown
  split at hshown
  · obtain ⟨piece, hpiece, rfl⟩ := List.mem_map.mp (List.mem_of_mem_filter hshown)
    exact fun hmem => Text.notMem_of_mem_pieces hpiece ((Text.trim_infix piece).subset hmem)
  · next hline =>
    obtain rfl := List.mem_singleton.mp hshown
    exact hline

/-- What is shown in one entry is one line. -/
theorem notMem_present (h : of? l = some d) (t : Text) : ∀ shown ∈ d.present t, '\n' ∉ shown := by
  cases l with
  | python =>
    obtain rfl : python = d := Option.some.inj h
    exact fun shown hshown => Text.notMem_of_mem_pieces hshown
  | java =>
    obtain rfl : java = d := Option.some.inj h
    exact notMem_javaPresent t
  | html => cases h

/-- A line shows successes, each on a line of its own. -/
theorem success_of_mem_lineEntries (h : of? l = some d) {line : Text} {e : Log.Entry}
    (he : e ∈ d.lineEntries line) : e.kind = .success ∧ '\n' ∉ e.text := by
  unfold lineEntries at he
  split at he
  · cases he
  · obtain ⟨shown, hshown, rfl⟩ := List.mem_map.mp he
    exact ⟨rfl, notMem_present h _ shown hshown⟩

theorem success_of_mem_body (h : of? l = some d) {source : Text} {e : Log.Entry}
    (he : e ∈ d.body source) : e.kind = .success ∧ '\n' ∉ e.text := by
  obtain ⟨line, -, he⟩ := List.mem_flatMap.mp he
  exact success_of_mem_lineEntries h he

/-- Nothing that is said before or behind a run is a fault. -/
theorem ne_error_of_mem_frame (h : of? l = some d) :
    ∀ e ∈ d.opening ++ d.closing, e.kind ≠ .error := by
  cases l with
  | python =>
    obtain rfl : python = d := Option.some.inj h
    decide
  | java =>
    obtain rfl : java = d := Option.some.inj h
    decide
  | html => cases h

end Dialect

open Dialect

variable {l : Language} {d : Dialect}

theorem trace_eq (h : Dialect.of? l = some d) (source : Text) :
    trace l source = d.opening ++ d.body source ++ d.closing := by
  rw [trace, h]
  rfl

/-- **A trace goes line by line**: between the entries that open and close every run stand those of
the lines, in their order and each from its line alone; they are successes of one line each, and
no run has a fault.  So what a line shows can change without anything else. -/
theorem trace_lines (h : Dialect.of? l = some d) :
    (∀ source, trace l source = d.opening ++ d.body source ++ d.closing) ∧
    (∀ before behind, d.body (before ++ '\n' :: behind) = d.body before ++ d.body behind) ∧
    (∀ source, ∀ e ∈ d.body source, e.kind = .success ∧ '\n' ∉ e.text) ∧
    (∀ source, ∀ e ∈ trace l source, e.kind ≠ .error) ∧
    ∀ before line behind, (∀ other ∈ before ++ line :: behind, '\n' ∉ other) →
      d.body (Text.joined ['\n'] (before ++ line :: behind)) =
        before.flatMap d.body ++ d.body line ++ behind.flatMap d.body := by
  refine ⟨trace_eq h, d.body_append, fun source e => success_of_mem_body h, ?_, ?_⟩
  · intro source e he
    rw [trace_eq h, List.append_assoc] at he
    have hframe := ne_error_of_mem_frame h e
    rcases List.mem_append.mp he with he | he
    · exact hframe (List.mem_append_left _ he)
    · rcases List.mem_append.mp he with he | he
      · rw [(success_of_mem_body h he).1]
        decide
      · exact hframe (List.mem_append_right _ he)
  · intro before line behind hlines
    have hbody (lines : List Text) (hsub : lines ⊆ before ++ line :: behind) :
        lines.flatMap d.body = lines.flatMap d.lineEntries :=
      List.flatMap_congr fun other hother => body_of_notMem (hlines other (hsub hother))
    have hline : d.body line = d.lineEntries line := body_of_notMem (hlines line (by simp))
    rw [body_joined (by simp) hlines, hbody before (by simp), hbody behind (by simp), hline,
      List.flatMap_append, List.flatMap_cons, List.append_assoc]

/-- A line that shows two entries, behind one that shows none. -/
theorem trace_lines_escaped :
    Dialect.of? .java = some java ∧
      java.body "int n = 1;\r\nSystem.out.println(\"a\\nb\");" =
        java.body "int n = 1;\r" ++ java.body "System.out.println(\"a\\nb\");" ∧
      java.body "System.out.println(\"a\\nb\");" = [.success "a", .success "b"] := by
  have hjava : Dialect.of? .java = some java := rfl
  exact ⟨hjava, (trace_lines hjava).2.1 "int n = 1;\r" "System.out.println(\"a\\nb\");",
    by decide⟩

end Workbench
