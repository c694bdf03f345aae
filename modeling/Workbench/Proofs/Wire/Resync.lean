import Workbench.Proofs.Wire.Oversized
import Workbench.Wire.Server

/-!
# Proofs/Wire/Resync — how reading finds its way back to a frame

What stands in front of a frame is passed over if it is a text without the mark.  But a header is
read by lines of text, and a line that is not UTF-8 is a fault of the stream, behind which nothing
more is read.  So a frame is found behind bytes without the mark exactly if these are a text
(`resynchronises_iff`), and behind any others a server stops.
-/

namespace Workbench.Wire

variable {junk rest : Bytes} {c : Char}

/-! ## Bytes that are no text -/

/-- Bytes that are no text do not become one by an ASCII character behind them. -/
theorem decode_append_ascii (hjunk : Text.decode junk = none) (hc : c.toNat < 0x80) :
    Text.decode (junk ++ UInt8.ofNat c.toNat :: rest) = none := by
  rw [Option.eq_none_iff_forall_ne_some]
  intro t ht
  obtain ⟨s, -, -, rfl, -⟩ :=
    Text.exists_of_encode_eq_append_cons hc (Text.eq_encode_of_decode ht).symm
  rw [Text.decode_encode] at hjunk
  cases hjunk

/-- Bytes without a line feed belong to the line that goes on behind them. -/
theorem takeLine_append_of_notMem (hfeed : 10 ∉ junk) (b : UInt8) (rest : Bytes) :
    ∃ line, (takeLine (junk ++ b :: rest)).1 = junk ++ b :: line := by
  induction junk with
  | nil =>
    rw [List.nil_append, takeLine]
    split
    · exact ⟨[], rfl⟩
    · exact ⟨_, rfl⟩
  | cons a junk ih =>
    obtain ⟨ha, hjunk⟩ := not_or.mp (List.mem_cons.not.mp hfeed)
    obtain ⟨line, hline⟩ := ih hjunk
    rw [List.cons_append, takeLine, if_neg (Ne.symm ha)]
    exact ⟨line, congrArg (a :: ·) hline⟩

/-- A line without the mark announces nothing. -/
theorem eq_none_of_read {line : Text} {announced : Announced}
    (hline : ¬ Text.encode lengthMark <:+: Text.encode line)
    (h : Announced.read none line = .inl announced) : announced = none := by
  rcases read_inl h with h | ⟨before, value, rfl, -⟩
  · exact h
  · exact absurd ⟨Text.encode before, Text.encode value, by simp⟩ hline

/-- Bytes that are no text are a fault of the stream, in the line in which they cease to be one. -/
theorem readHeader_notUtf8 (hmark : ¬ Text.encode lengthMark <:+: junk)
    (hjunk : Text.decode junk = none) (hc : c.toNat < 0x80) (rest : Bytes) :
    readHeader none (junk ++ UInt8.ofNat c.toNat :: rest) = .error .notUtf8 := by
  generalize hannounced : (none : Announced) = announced
  generalize hinput : junk ++ UInt8.ofNat c.toNat :: rest = input
  fun_induction readHeader announced input generalizing junk with
  | case1 => simp at hinput
  | case2 => rfl
  | case3 announced b input line _ length hread =>
    rw [eq_of_read_inr hread] at hannounced
    cases hannounced
  | case4 announced b input line hdecode announced' hread ih =>
    subst hannounced
    -- the line is a text, so it ends before the bytes cease to be one
    have hfeed : 10 ∈ junk := by
      by_contra hfeed
      obtain ⟨tail, htail⟩ := takeLine_append_of_notMem hfeed (UInt8.ofNat c.toNat) rest
      rw [← hinput, htail, decode_append_ascii hjunk hc] at hdecode
      cases hdecode
    obtain ⟨before, behind, rfl, hbefore⟩ := List.eq_append_cons_of_mem hfeed
    have hsplit : takeLine (b :: input) =
        (before ++ [10], behind ++ UInt8.ofNat c.toNat :: rest) := by
      rw [← hinput, List.append_assoc, List.cons_append, takeLine_append_feed hbefore]
    rw [hsplit] at hdecode ih ⊢
    have hline : before ++ [10] = Text.encode line := Text.eq_encode_of_decode hdecode
    have hannounced' : announced' = none := by
      refine eq_none_of_read (fun hwithin => hmark (hwithin.trans ?_)) hread
      exact hline ▸ ⟨[], behind, by simp⟩
    refine ih (fun hwithin => hmark (hwithin.trans ?_)) ?_ hannounced'.symm rfl
    · exact ⟨before ++ [10], [], by simp⟩
    · have hjunk' : (Text.decode behind).map (line ++ ·) = none := by
        rw [← Text.decode_encode_append, ← hline, List.append_assoc, List.singleton_append, hjunk]
      exact Option.map_eq_none_iff.mp hjunk'

/-! ## Frames behind them -/

namespace Frame

theorem bytes_eq_cons (f : Frame) : ∃ rest, f.bytes = UInt8.ofNat 'C'.toNat :: rest := by
  rw [bytes, Header.full, lengthMark_eq_cons]
  exact ⟨_, rfl⟩

/-- What a frame gives behind bytes without the mark. -/
theorem readMessage_behind (f : Frame) (hmark : ¬ Text.encode lengthMark <:+: junk)
    (rest : Bytes) :
    readMessage (junk ++ f.bytes ++ rest) =
      match Text.decode junk with
      | some _ => some (Message.decode f.body, rest)
      | none => some (.error (.stream .notUtf8), []) := by
  cases hjunk : Text.decode junk with
  | some t =>
    obtain rfl : junk = Text.encode t := Text.eq_encode_of_decode hjunk
    refine f.readMessage_bytes (fun hwithin => hmark ?_) rest
    obtain ⟨before, after, rfl⟩ := hwithin
    exact ⟨Text.encode before, Text.encode after, by simp⟩
  | none =>
    obtain ⟨tail, htail⟩ := f.bytes_eq_cons
    rw [readMessage, htail, List.append_assoc, List.cons_append,
      readHeader_notUtf8 hmark hjunk (by decide)]

end Frame

/-! ## Serving -/

variable {input : Bytes}

/-- Nothing comes behind a fault of the stream. -/
theorem readMessages_fault {fault : StreamFault}
    (h : readMessage input = some (.error (.stream fault), rest)) :
    readMessages input = [.error (.stream fault)] := by
  cases input with
  | nil => simp [readMessage, readHeader] at h
  | cons b input =>
    rw [readMessages]
    split <;> simp_all

theorem Frame.readMessages_append (f : Frame) (input : Bytes) :
    readMessages (f.bytes ++ input) = Message.decode f.body :: readMessages input :=
  readMessages_cons (f.readMessage_bytes unmarked_nil input) (decode_ne_stream f.body)

/-- **A frame is found** behind bytes without the mark exactly if these are a text.  Between two
frames such bytes are then as good as absent; any others end the service. -/
theorem Frame.resynchronises_iff (f : Frame) (hmark : ¬ Text.encode lengthMark <:+: junk)
    (rest : Bytes) :
    (readMessage (junk ++ f.bytes ++ rest) = some (Message.decode f.body, rest) ↔
      ∃ t, junk = Text.encode t) ∧
    ∀ (g : Frame) (v : Server),
      v.run (readMessages (g.bytes ++ (junk ++ f.bytes ++ rest))) =
        match Text.decode junk with
        | some _ => v.run (readMessages (g.bytes ++ (f.bytes ++ rest)))
        | none => v.run [Message.decode g.body, .error (.stream .notUtf8)] := by
  have hread := f.readMessage_behind hmark rest
  cases hjunk : Text.decode junk with
  | some t =>
    rw [hjunk] at hread
    refine ⟨iff_of_true hread ⟨t, Text.eq_encode_of_decode hjunk⟩, fun g v => ?_⟩
    rw [g.readMessages_append, g.readMessages_append, f.readMessages_append,
      readMessages_cons hread (decode_ne_stream f.body)]
  | none =>
    rw [hjunk] at hread
    refine ⟨iff_of_false ?_ ?_, fun g v => ?_⟩
    · rw [hread]
      exact fun h => decode_ne_stream f.body _ (congrArg Prod.fst (Option.some.inj h)).symm
    · rintro ⟨t, rfl⟩
      rw [Text.decode_encode] at hjunk
      cases hjunk
    · rw [g.readMessages_append, readMessages_fault hread]

/-- Text beyond ASCII that breaks off in the middle of the mark is passed over. -/
theorem resynchronises_behind_text :
    let junk := Text.encode "é\nContent-Len"
    ¬ Text.encode lengthMark <:+: junk ∧
      readMessage (junk ++ clearFrame.bytes ++ []) =
        some (.ok ⟨1, "request", .request "clear" none⟩, []) := by
  intro junk
  have hmark : ¬ Text.encode lengthMark <:+: junk := by decide
  refine ⟨hmark, ?_⟩
  rw [← decode_clearFrame]
  exact (clearFrame.resynchronises_iff hmark []).1.mpr ⟨_, rfl⟩

/-- A byte that is in no text ends the service in front of the next frame. -/
theorem stops_behind_junk :
    let junk : Bytes := [0xFF, 10]
    ¬ Text.encode lengthMark <:+: junk ∧
      Message.decode clearFrame.body = .ok ⟨1, "request", .request "clear" none⟩ ∧
      readMessage (junk ++ clearFrame.bytes) = some (.error (.stream .notUtf8), []) ∧
      (Server.serve (.new {} {}) (clearFrame.bytes ++ (junk ++ clearFrame.bytes))).2.2 =
        some (.stream .notUtf8) := by
  intro junk
  have hmark : ¬ Text.encode lengthMark <:+: junk := by decide
  have hread : readMessage (junk ++ clearFrame.bytes) = some (.error (.stream .notUtf8), []) := by
    rw [← List.append_nil clearFrame.bytes, ← List.append_assoc,
      clearFrame.readMessage_behind hmark]
    rfl
  refine ⟨hmark, decode_clearFrame, hread, ?_⟩
  rw [Server.serve, clearFrame.readMessages_append, readMessages_fault hread, decode_clearFrame]
  rfl

end Workbench.Wire
