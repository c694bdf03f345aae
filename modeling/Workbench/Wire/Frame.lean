import Workbench.Wire.Message

/-!
# Wire/Frame — messages in a stream of bytes

A frame is a header line with the length of the body, an empty line, and the body.  A reader finds
the header wherever it stands in a line, passes over what it does not know, and remembers only the
last length that was announced, so it finds its way back after a header that makes no sense.
-/

namespace Workbench

/-- The words before a length. -/
def lengthMark : Text := "Content-Length:"

/-- The length of the longest body. -/
def maxBody : Nat := 16 * 1024 * 1024

/-- A message with its header. -/
def Message.frame (m : Message) : Text :=
  let body := m.toJson.print
  lengthMark ++ " " ++ Text.ofNat (Text.bytes body) ++ "\r\n\r\n" ++ body

/-! ## Headers -/

/-- What the lines of a header say so far: nothing, a length, or why what they say is none. -/
abbrev Announced := Option (Except Error Nat)

/-- The length that a header gives. -/
def readLength (value : Text) : Except Error Nat :=
  match Text.count? value with
  | some n => .ok n
  | none => .error (.protocol ("bad Content-Length '" ++ value ++ "'"))

/-- What a header says after one more line. -/
def Announced.after (before : Announced) (line : Text) : Announced :=
  match Text.cutFirst lengthMark line with
  | some (_, value) => some (readLength (Text.trim value))
  | none => before

/-- A line without the line break at its end, however many characters that has. -/
def dropLineBreak (line : Text) : Text :=
  (line.reverse.dropWhile fun c => c = '\r' || c = '\n').reverse

/-- What one more line does to a header: it goes on, or the line is the empty one that ends it.
Empty lines before a length is announced are passed over. -/
def Announced.read (before : Announced) (line : Text) : Announced ⊕ Except Error Nat :=
  match dropLineBreak line, before with
  | [], some length => .inr length
  | line, before => .inl (before.after line)

/-- The bytes through the first line feed, and the bytes behind it. -/
def takeLine : Bytes → Bytes × Bytes
  | [] => ([], [])
  | b :: rest =>
    if b = 10 then ([b], rest)
    else
      let (line, rest) := takeLine rest
      (b :: line, rest)

/-- A line takes at least one byte. -/
theorem length_takeLine_cons (b : UInt8) (input : Bytes) :
    (takeLine (b :: input)).2.length ≤ input.length := by
  induction input generalizing b with
  | nil =>
    rw [takeLine]
    split <;> simp [takeLine]
  | cons c input ih =>
    rw [takeLine]
    split
    · simp
    · exact Nat.le_succ_of_le (ih c)

/-- Reads the lines of a header; there is none if the input ends before the header does. -/
def readHeader (announced : Announced) :
    Bytes → Except StreamFault (Option (Except Error Nat × Bytes))
  | [] => .ok none
  | b :: input =>
    match Text.decode (takeLine (b :: input)).1 with
    | none => .error .notUtf8
    | some line =>
      match announced.read line with
      | .inr length => .ok (some (length, (takeLine (b :: input)).2))
      | .inl announced => readHeader announced (takeLine (b :: input)).2
termination_by input => input.length
decreasing_by
  have := length_takeLine_cons b input
  simp only [List.length_cons]
  omega

/-- A header takes at least one byte. -/
theorem length_of_readHeader {announced : Announced} {input rest : Bytes}
    {length : Except Error Nat} (h : readHeader announced input = .ok (some (length, rest))) :
    rest.length < input.length := by
  fun_induction readHeader announced input with
  | case1 => simp at h
  | case2 => simp at h
  | case3 announced b input =>
    obtain ⟨_, rfl⟩ : _ ∧ (takeLine (b :: input)).2 = rest := by simpa using h
    exact Nat.lt_succ_of_le (length_takeLine_cons b input)
  | case4 announced b input _ _ _ _ ih =>
    have := ih h
    have := length_takeLine_cons b input
    simp only [List.length_cons]
    omega

/-! ## Messages -/

/-- What follows a header: the message, and the bytes behind it.  A body that is too long is passed
over as far as it goes. -/
def readBody (length : Except Error Nat) (input : Bytes) : Except Error Message × Bytes :=
  match length with
  | .error e => (.error e, input)
  | .ok length =>
    if maxBody < length then
      (.error (.protocol ("message of " ++ Text.ofNat length ++ " bytes exceeds the " ++
        Text.ofNat maxBody ++ " byte limit")), input.drop length)
    else if input.length < length then (.error (.stream .endsEarly), [])
    else (Message.decode (input.take length), input.drop length)

theorem length_readBody (length : Except Error Nat) (input : Bytes) :
    (readBody length input).2.length ≤ input.length := by
  unfold readBody
  split
  · exact Nat.le_refl _
  · split
    · simp
    · split <;> simp

/-- The next message of a stream, or the fault in its place, with the bytes behind it; none at the
end of the stream. -/
def readMessage (input : Bytes) : Option (Except Error Message × Bytes) :=
  match readHeader none input with
  | .error fault => some (.error (.stream fault), [])
  | .ok none => none
  | .ok (some (length, rest)) => some (readBody length rest)

/-- A message takes at least one byte. -/
theorem length_of_readMessage {b : UInt8} {input rest : Bytes} {result : Except Error Message}
    (h : readMessage (b :: input) = some (result, rest)) : rest.length < input.length + 1 := by
  unfold readMessage at h
  split at h
  · have : [] = rest := by simp_all
    simp [← this]
  · simp at h
  · next length behind hh =>
    have := length_of_readHeader hh
    have := length_readBody length behind
    have : (readBody length behind).2 = rest := by simp_all
    simp_all only [List.length_cons]
    omega

/-- Every message of a stream, or the fault in its place, in order.  A fault of the stream itself is
the last. -/
def readMessages : Bytes → List (Except Error Message)
  | [] => []
  | b :: input =>
    match _ : readMessage (b :: input) with
    | none => []
    | some (.error (.stream fault), _) => [.error (.stream fault)]
    | some (result, rest) => result :: readMessages rest
termination_by input => input.length
decreasing_by
  rename_i read
  exact length_of_readMessage read

end Workbench
