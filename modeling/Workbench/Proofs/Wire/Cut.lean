import Workbench.Proofs.Wire.Resync
import Workbench.Proofs.Wire.RoundTrip

/-!
# Proofs/Wire/Cut — a stream that breaks off

A stream may break off anywhere: between the digits of a length, which then read as a smaller one,
between the two characters of a line break, or within a body.  A header counts only once its empty
line has begun (`Header.readHeader_cut`), and by then all digits are there; so a cut frame is passed
over, or its body is found too short (`Message.Sendable.readMessages_cut`).  What is read of a cut
stream is the messages whose frames are whole, and at most that one fault (`reads_cut`).
-/

namespace Workbench

variable {rest cut : Bytes}

/-! ## A cut header -/

namespace Text

variable {t : Text}

theorem encode_cons_of_ascii {c : Char} (hc : c.toNat < 0x80) (t : Text) :
    encode (c :: t) = UInt8.ofNat c.toNat :: encode t := by
  have hone : c.toNat ≤ 127 := Nat.le_of_lt_succ hc
  rw [encode_cons]
  simp [String.utf8EncodeChar, hone]

theorem length_encode_of_ascii (ht : ∀ c ∈ t, c.toNat < 0x80) : (encode t).length = t.length := by
  induction t with
  | nil => rfl
  | cons c t ih =>
    obtain ⟨hc, ht⟩ := List.forall_mem_cons.mp ht
    rw [encode_cons_of_ascii hc, List.length_cons, List.length_cons, ih ht]

/-- The ASCII range has one byte for each character, so a cut is always between two characters. -/
theorem exists_of_encode_ascii (ht : ∀ c ∈ t, c.toNat < 0x80) (h : encode t = cut ++ rest) :
    ∃ s u, t = s ++ u ∧ cut = encode s ∧ rest = encode u := by
  induction t generalizing cut with
  | nil =>
    obtain ⟨rfl, rfl⟩ := List.append_eq_nil_iff.mp h.symm
    exact ⟨[], [], rfl, rfl, rfl⟩
  | cons c t ih =>
    obtain ⟨hc, ht⟩ := List.forall_mem_cons.mp ht
    rw [encode_cons_of_ascii hc] at h
    rcases List.cons_eq_append_iff.mp h with ⟨rfl, rfl⟩ | ⟨cut', rfl, hrest⟩
    · exact ⟨[], c :: t, rfl, rfl, (encode_cons_of_ascii hc t).symm⟩
    · obtain ⟨s, u, rfl, rfl, rfl⟩ := ih ht hrest
      exact ⟨c :: s, u, rfl, (encode_cons_of_ascii hc s).symm, rfl⟩

end Text

namespace Wire.Header

variable {n : Nat} {t u : Text}

theorem ascii_full_ofLength (n : Nat) : ∀ c ∈ (ofLength n).full, c.toNat < 0x80 := by
  have hdigits : ∀ c ∈ Text.ofNat n, c.toNat < 0x80 := fun c hc =>
    calc c.toNat ≤ 57 := (Char.isDigit_iff_toNat.mp (Text.isDigit_of_mem_ofNat hc)).2
      _ < 0x80 := by decide
  have hplain : (lengthMark ++ " " ++ "\r\n\r\n").all (·.toNat < 0x80) := by decide
  intro c hc
  rw [full_ofLength] at hc
  by_cases hdigit : c ∈ Text.ofNat n
  · exact hdigits c hdigit
  · refine of_decide_eq_true (List.all_eq_true.mp hplain c ?_)
    simpa [hdigit] using hc

/-- **A cut header** is none, unless nothing is missing but the last line feed. -/
theorem readHeader_cut (hn : n < 2 ^ 64) (h : (ofLength n).full = t ++ u) (hu : u ≠ []) :
    readHeader none (Text.encode t) =
      if u.length = 1 then .ok (some (.ok n, [])) else .ok none := by
  set line : Text := lengthMark ++ (' ' :: Text.ofNat n) ++ ['\r'] with hline
  have hdigits : '\n' ∉ ' ' :: Text.ofNat n := (ofLength n).value.noFeed
  have hfeed : '\n' ∉ line := by
    simp only [hline, List.mem_append, not_or]
    exact ⟨⟨by decide, hdigits⟩, by decide⟩
  have hfull : (ofLength n).full = line ++ '\n' :: ['\r', '\n'] := by
    rw [full_ofLength, hline]
    simp
  have hfirst (s : Text) : readHeader none (Text.encode (line ++ '\n' :: s)) =
      readHeader (some (.ok n)) (Text.encode s) := by
    have hjunk := readHeader_junk unmarked_nil hdigits 1 (Text.encode s)
    rw [readLength, Text.count?_trim_ofNat hn, ← Text.encode_append] at hjunk
    simpa [lineBreak, hline] using hjunk
  have hlast (ht : '\n' ∉ t) (hu : 1 < u.length) : readHeader none (Text.encode t) =
      if u.length = 1 then .ok (some (.ok n, [])) else .ok none := by
    rw [readHeader_last ht (.inl rfl), if_neg (Nat.ne_of_gt hu)]
  rw [hfull] at h
  rcases List.append_eq_append_iff.mp h with ⟨s, rfl, hs⟩ | ⟨s, hline', rfl⟩
  · rcases List.cons_eq_append_iff.mp hs with ⟨rfl, rfl⟩ | ⟨s', rfl, hs'⟩
    · exact hlast (by rwa [List.append_nil]) (by decide)
    -- the first line is whole, and of the empty one there is at most its first character
    rw [hfirst]
    rcases List.cons_eq_append_iff.mp hs' with ⟨rfl, rfl⟩ | ⟨s'', rfl, hs''⟩
    · rw [Text.encode_nil, readHeader]
      rfl
    · obtain ⟨rfl, rfl⟩ : s'' = [] ∧ u = ['\n'] := by
        simpa [hu] using List.singleton_eq_append_iff.mp hs''
      rw [Text.encode_cons_of_ascii (by decide), Text.encode_nil, readHeader]
      rfl
  · exact hlast (fun ht => hfeed (hline' ▸ List.mem_append_left s ht)) (by simp)

end Wire.Header

/-! ## A cut frame -/

namespace Message

variable {m : Message} {messages : List Message}

/-- The bytes of messages that are sent one after the other. -/
def stream (messages : List Message) : Bytes := messages.flatMap fun m => Text.encode m.frame

/-- The bytes of the body that a message is sent with. -/
def body (m : Message) : Bytes := Text.encode m.toJson.print

theorem readMessages_of_none {input : Bytes} (h : readHeader none input = .ok none) :
    readMessages input = [] := by
  refine (Wire.Reads.done ?_).readMessages_eq (by simp)
  rw [readMessage, h]

/-- A body that is too short is a fault of the stream. -/
theorem readMessages_of_short {input behind : Bytes} {n : Nat}
    (h : readHeader none input = .ok (some (.ok n, behind))) (hn : n ≤ maxBody)
    (hshort : behind.length < n) : readMessages input = [.error (.stream .endsEarly)] := by
  have hbody : readBody (.ok n) behind = (.error (.stream .endsEarly), []) := by
    rw [readBody]
    simp only [if_neg (Nat.not_lt.mpr hn), if_pos hshort]
  refine Wire.readMessages_fault (?_ : readMessage input = some (_, []))
  rw [readMessage, h, ← hbody]

/-- **A cut frame** is passed over while two bytes of its header are missing, and from then on its
body is found too short. -/
theorem Sendable.readMessages_cut (hm : m.Sendable) (h : Text.encode m.frame = cut ++ rest)
    (hrest : rest ≠ []) :
    readMessages cut =
      if rest.length ≤ m.body.length + 1 then [.error (.stream .endsEarly)] else [] := by
  have hsize : m.body.length ≤ maxBody := (Text.length_encode _).trans_le hm.size
  have hlength : m.body.length < 2 ^ 64 := Nat.lt_of_le_of_lt hsize (by decide)
  have hbody : 0 < m.body.length := by
    rw [body, Text.length_encode]
    exact Nat.lt_of_lt_of_le (Char.utf8Size_pos '\x7b') (Nat.le_add_right _ _)
  set header := Wire.Header.ofLength m.body.length
  have hsplit : Text.encode header.full ++ m.body = cut ++ rest :=
    (m.encode_frame hsize).symm.trans h
  have hwhole {behind : Bytes} (hcut : cut = Text.encode header.full ++ behind)
      (hbehind : m.body = behind ++ rest) :
      readMessages cut = [.error (.stream .endsEarly)] := by
    have hread := header.readHeader_full unmarked_nil behind
    have hcount : Text.count? (Text.trim header.value.text) = some m.body.length :=
      Wire.Header.length?_ofLength hlength
    rw [List.nil_append, ← hcut, readLength, hcount] at hread
    refine readMessages_of_short hread hsize ?_
    rw [hbehind, List.length_append]
    exact Nat.lt_add_of_pos_right (List.length_pos_iff.mpr hrest)
  rcases List.append_eq_append_iff.mp hsplit with ⟨behind, hcut, hbehind⟩ | ⟨missing, hheader, rfl⟩
  · rw [hwhole hcut hbehind, if_pos]
    rw [hbehind, List.length_append]
    omega
  by_cases hmissing : missing = []
  · subst hmissing
    rw [List.append_nil] at hheader
    have hall : cut = Text.encode header.full ++ [] := by rw [hheader, List.append_nil]
    rw [hwhole hall rfl, List.nil_append, if_pos (Nat.le_succ _)]
  have hascii := Wire.Header.ascii_full_ofLength m.body.length
  obtain ⟨s, u, hfull, rfl, rfl⟩ := Text.exists_of_encode_ascii hascii hheader
  have hu : u ≠ [] := fun hu => hmissing (hu ▸ rfl)
  have hrestLength : (Text.encode u ++ m.body).length = u.length + m.body.length := by
    rw [List.length_append, Text.length_encode_of_ascii fun c hc =>
      hascii c (hfull ▸ List.mem_append_right s hc)]
  have hread := Wire.Header.readHeader_cut hlength hfull hu
  by_cases hone : u.length = 1
  · rw [if_pos hone] at hread
    rw [readMessages_of_short hread hsize hbody, if_pos (by omega)]
  · have := List.length_pos_iff.mpr hu
    rw [if_neg hone] at hread
    rw [readMessages_of_none hread, if_neg (by omega)]

/-! ## A cut stream -/

theorem stream_append (before behind : List Message) :
    stream (before ++ behind) = stream before ++ stream behind := List.flatMap_append

theorem stream_cons (m : Message) (messages : List Message) :
    stream (m :: messages) = Text.encode m.frame ++ stream messages := List.flatMap_cons

theorem stream_singleton (m : Message) : stream [m] = Text.encode m.frame := List.flatMap_singleton ..

theorem length_stream_mono {first : List Message} (h : first <+: messages) :
    (stream first).length ≤ (stream messages).length := by
  obtain ⟨behind, rfl⟩ := h
  rw [stream_append, List.length_append]
  exact Nat.le_add_right _ _

/-- What is left of a cut stream behind its last whole frame: the beginning of the next frame, but
not all of it. -/
def BreaksOff (left : Bytes) : List Message → Prop
  | [] => left = []
  | m :: _ => ∃ missing, Text.encode m.frame = left ++ missing ∧ missing ≠ []

/-- A cut goes through one frame, or through none. -/
theorem exists_of_stream_eq_append (h : stream messages = cut ++ rest) :
    ∃ whole behind left,
      messages = whole ++ behind ∧ cut = stream whole ++ left ∧ BreaksOff left behind := by
  induction messages generalizing cut with
  | nil =>
    obtain ⟨rfl, -⟩ := List.append_eq_nil_iff.mp h.symm
    exact ⟨[], [], [], rfl, rfl, rfl⟩
  | cons m messages ih =>
    rw [stream_cons] at h
    by_cases hfits : (Text.encode m.frame).length ≤ cut.length
    · obtain ⟨cut, rfl⟩ := List.prefix_of_prefix_length_le ⟨_, h⟩ ⟨_, rfl⟩ hfits
      rw [List.append_assoc, List.append_cancel_left_eq] at h
      obtain ⟨whole, behind, left, rfl, rfl, hleft⟩ := ih h
      exact ⟨m :: whole, behind, left, rfl, by rw [stream_cons, List.append_assoc], hleft⟩
    · obtain ⟨missing, hmissing⟩ :=
        List.prefix_of_prefix_length_le ⟨_, h.symm⟩ ⟨_, rfl⟩ (Nat.le_of_not_le hfits)
      refine ⟨[], m :: messages, cut, rfl, rfl, missing, hmissing.symm, ?_⟩
      rintro rfl
      rw [← hmissing, List.append_nil] at hfits
      exact hfits (Nat.le_refl _)

/-- Frames are read one after the other, whatever stands behind them. -/
theorem readMessages_stream_append (h : ∀ m ∈ messages, m.Sendable) (left : Bytes) :
    readMessages (stream messages ++ left) = messages.map .ok ++ readMessages left := by
  induction messages with
  | nil => rfl
  | cons m messages ih =>
    obtain ⟨hm, hmessages⟩ := List.forall_mem_cons.mp h
    rw [stream_cons, List.append_assoc, Wire.readMessages_cons (hm.readMessage_frame _) (by simp),
      ih hmessages]
    rfl

/-- A frame lies within a cut exactly if it is one of the whole ones. -/
theorem BreaksOff.lt_length_iff {whole behind before after : List Message} {left : Bytes}
    (h : BreaksOff left behind) (hsplit : whole ++ behind = before ++ m :: after) :
    before.length < whole.length ↔
      (stream (before ++ [m])).length ≤ (stream whole ++ left).length := by
  have hmessages : whole ++ behind = (before ++ [m]) ++ after := by
    rw [hsplit, List.append_assoc, List.singleton_append]
  constructor
  · intro hlt
    have hwithin : before ++ [m] <+: whole :=
      List.prefix_of_prefix_length_le ⟨_, hmessages.symm⟩ ⟨_, rfl⟩ (by simpa using hlt)
    rw [List.length_append]
    exact Nat.le_add_right_of_le (length_stream_mono hwithin)
  · intro hle
    by_contra hlt
    cases behind with
    | nil =>
      have hlength := congrArg List.length hsplit
      simp only [List.append_nil, List.length_append, List.length_cons] at hlength
      omega
    | cons next others =>
      obtain ⟨missing, hframe, hmissing⟩ := h
      have hwithin : whole ++ [next] <+: before ++ [m] := by
        have hfirst : whole ++ [next] <+: whole ++ next :: others := ⟨others, by simp⟩
        exact List.prefix_of_prefix_length_le hfirst ⟨after, hmessages.symm⟩ (by simpa using hlt)
      have hlonger := length_stream_mono hwithin
      have := List.length_pos_iff.mpr hmissing
      rw [stream_append, stream_cons, hframe] at hlonger
      simp only [List.length_append] at hle hlonger
      omega

/-- **A cut stream** gives the messages whose frames it holds whole, in their order, and behind them
nothing or the fault of a body that is too short; it is the fault if at most the last byte is
missing of the header that comes next. -/
theorem reads_cut (h : ∀ m ∈ messages, m.Sendable) (hcut : stream messages = cut ++ rest) :
    ∃ whole behind ending, messages = whole ++ behind ∧
      readMessages cut = whole.map .ok ++ ending ∧
      (∀ before m after, messages = before ++ m :: after →
        (before.length < whole.length ↔ (stream (before ++ [m])).length ≤ cut.length)) ∧
      (ending = [] ∨ ending = [.error (.stream .endsEarly)]) ∧
      (ending ≠ [] ↔ ∃ m ∈ behind.head?,
        (stream (whole ++ [m])).length ≤ cut.length + m.body.length + 1) := by
  obtain ⟨whole, behind, left, rfl, rfl, hleft⟩ := exists_of_stream_eq_append hcut
  obtain ⟨hwhole, hbehind⟩ := List.forall_mem_append.mp h
  refine ⟨whole, behind, readMessages left, rfl, readMessages_stream_append hwhole left,
    fun before m after hsplit => hleft.lt_length_iff hsplit, ?_⟩
  cases behind with
  | nil =>
    obtain rfl : left = [] := hleft
    rw [readMessages]
    simp
  | cons m others =>
    obtain ⟨missing, hframe, hmissing⟩ := hleft
    have hm : m.Sendable := hbehind m List.mem_cons_self
    have hlength : (stream (whole ++ [m])).length =
        (stream whole ++ left).length + missing.length := by
      rw [stream_append, stream_singleton, hframe, ← List.append_assoc, List.length_append]
    have hnext : (∃ next ∈ (m :: others).head?, (stream (whole ++ [next])).length ≤
        (stream whole ++ left).length + next.body.length + 1) ↔
          missing.length ≤ m.body.length + 1 := by
      simp only [List.head?_cons, Option.mem_some_iff, exists_eq_left', hlength]
      omega
    rw [hm.readMessages_cut hframe hmissing, hnext]
    split
    · next hshort => exact ⟨.inr rfl, iff_of_true (List.cons_ne_nil _ _) hshort⟩
    · next hlong => exact ⟨.inl rfl, iff_of_false (fun hne => hne rfl) hlong⟩

/-- A stream that breaks off between the two digits of a length, and one that does so within a
letter beyond ASCII. -/
theorem reads_cut_length :
    let clear : Message := ⟨1, "request", .request "clear" none⟩
    let edit : Message := ⟨2, "request", .request "edit" (some (.object [("text", .string "é")]))⟩
    (∀ m ∈ [clear, edit], m.Sendable) ∧
      readMessages ((stream [clear, edit]).take 83) = [.ok clear] ∧
      readMessages ((stream [clear, edit]).take 153) =
        [.ok clear, .error (.stream .endsEarly)] := by
  intro clear edit
  have hshort {t : Text} (h : Text.bytes t ≤ 256) : Text.bytes t ≤ maxBody :=
    Nat.le_trans h (by decide)
  have hclear : clear.Sendable := ⟨by decide, nofun, by decide, hshort (by decide)⟩
  have hedit : edit.Sendable := by
    refine ⟨by decide, ?_, by decide, hshort (by decide)⟩
    rintro v ⟨⟩
    exact ⟨nofun, .object (List.forall_mem_singleton.mpr (.string _)),
      .object (List.pairwise_singleton _ _) (List.forall_mem_singleton.mpr (.string _))⟩
  have hsendable : ∀ m ∈ [clear, edit], m.Sendable :=
    List.forall_mem_cons.mpr ⟨hclear, List.forall_mem_singleton.mpr hedit⟩
  have hfirst : (stream ([] ++ [clear])).length = 66 := by decide +kernel
  have hboth : (stream ([clear] ++ [edit])).length = 157 := by decide +kernel
  have hbody : edit.body.length = 69 := by decide +kernel
  -- a cut through the second frame
  have hcut {n : Nat} (h : 66 ≤ n) (h' : n < 157) : ∃ ending,
      readMessages ((stream [clear, edit]).take n) = .ok clear :: ending ∧
        (ending = [] ∨ ending = [.error (.stream .endsEarly)]) ∧ (ending ≠ [] ↔ 87 ≤ n) := by
    obtain ⟨whole, behind, ending, hsplit, hread, hwhole, hending, hbegun⟩ :=
      reads_cut hsendable (List.take_append_drop n (stream [clear, edit])).symm
    have hlength : ((stream [clear, edit]).take n).length = n := by
      rw [List.length_take]
      exact Nat.min_eq_left (Nat.le_of_lt (hboth ▸ h'))
    have hone := hwhole [] clear [edit] rfl
    have htwo := hwhole [clear] edit [] rfl
    rw [hlength, hfirst] at hone
    rw [hlength, hboth] at htwo
    have hlengthOne : whole.length = 1 := by
      have : 0 < whole.length := hone.mpr h
      have : ¬ 1 < whole.length := fun hlt => Nat.not_le.mpr h' (htwo.mp hlt)
      omega
    obtain ⟨first, rfl⟩ := List.length_eq_one_iff.mp hlengthOne
    obtain ⟨rfl, rfl⟩ := List.cons_eq_cons.mp hsplit
    refine ⟨ending, hread, hending, hbegun.trans ?_⟩
    simp only [List.head?_cons, Option.mem_some_iff, exists_eq_left', hlength, hboth, hbody]
    omega
  refine ⟨hsendable, ?_, ?_⟩
  · obtain ⟨ending, hread, -, hbegun⟩ := hcut (n := 83) (by decide) (by decide)
    obtain rfl : ending = [] := by simpa using hbegun
    exact hread
  · obtain ⟨ending, hread, hending, hbegun⟩ := hcut (n := 153) (by decide) (by decide)
    obtain rfl := hending.resolve_left (hbegun.mpr (by decide))
    exact hread

end Message

end Workbench
