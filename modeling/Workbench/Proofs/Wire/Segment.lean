import Workbench.Proofs.Wire.Header

/-!
# Proofs/Wire/Segment — a stream is read segment by segment

A stream is made of frames, of headers that announce no length, and of junk in between.  However
these follow one another, each frame gives what its body holds, each bad header one fault, and junk
nothing (`reads_stream`): no byte of a segment is taken for one of the next, because the length of
a body is the only thing that says where it ends.

Two pieces of junk next to each other may spell the mark between them, so between any two there is
a segment of another kind.
-/

namespace Workbench.Wire

/-! ## Headers -/

/-- A line with the line break that ends it. -/
structure Line where
  text : Text
  /-- The carriage returns of the line break. -/
  returns : Nat
  noFeed : '\n' ∉ text

/-- All characters of a line. -/
def Line.full (l : Line) : Text := l.text ++ lineBreak l.returns

/-- A line of a header that says nothing about the length. -/
structure Field extends Line where
  nonempty : ∃ c ∈ text, c ≠ '\r'
  unmarked : ¬ lengthMark <:+: text

/-- A header: what stands behind the mark, other fields, and the line break of the empty line. -/
structure Header where
  value : Line
  fields : List Field
  /-- The carriage returns of the empty line. -/
  returns : Nat

namespace Header

/-- All characters of a header. -/
def full (h : Header) : Text :=
  lengthMark ++ h.value.full ++ h.fields.flatMap (·.full) ++ lineBreak h.returns

/-- The length that a header announces, if it announces one. -/
def length? (h : Header) : Option Nat := Text.count? (Text.trim h.value.text)

/-- The fault of a header that announces no length. -/
def fault (h : Header) : Error :=
  .protocol ("bad Content-Length '" ++ Text.trim h.value.text ++ "'")

/-- The header that a message is written with. -/
def ofLength (n : Nat) : Header where
  value := ⟨' ' :: Text.ofNat n, 1, by
    rintro (_ | ⟨_, h⟩)
    exact absurd (Text.isDigit_of_mem_ofNat h) (by decide)⟩
  fields := []
  returns := 1

theorem full_ofLength (n : Nat) :
    (ofLength n).full = lengthMark ++ " " ++ Text.ofNat n ++ "\r\n\r\n" := by
  simp [full, ofLength, Line.full, lineBreak]

theorem length?_ofLength {n : Nat} (h : n < 2 ^ 64) : (ofLength n).length? = some n :=
  Text.count?_trim_ofNat h

/-- Once a length is announced, the rest of the header changes nothing about it. -/
theorem readHeader_fields (length : Except Error Nat) (fields : List Field) (k : Nat)
    (rest : Bytes) :
    readHeader (some length)
      (Text.encode (fields.flatMap (·.full) ++ lineBreak k) ++ rest) =
        .ok (some (length, rest)) := by
  induction fields with
  | nil =>
    have := readHeader_line (t := []) List.not_mem_nil (some length) k rest
    rwa [List.nil_append, read_empty] at this
  | cons f fields ih =>
    have hbreak : ∃ c ∈ f.text, isBreak c = false := by
      obtain ⟨c, hc, hreturn⟩ := f.nonempty
      exact ⟨c, hc, by simp [hreturn, ne_of_mem_of_not_mem hc f.noFeed]⟩
    rw [List.flatMap_cons, List.append_assoc, Text.encode_append, List.append_assoc, Line.full,
      readHeader_line f.noFeed, read_passed f.unmarked (.inr hbreak)]
    exact ih

/-- **A header is read**, with the junk in front of it. -/
theorem readHeader_full (h : Header) {junk : Text} (hjunk : ¬ lengthMark <:+: junk) (rest : Bytes) :
    readHeader none (Text.encode (junk ++ h.full) ++ rest) =
      .ok (some (readLength (Text.trim h.value.text), rest)) := by
  have hsplit : junk ++ h.full =
      (junk ++ lengthMark ++ h.value.text ++ lineBreak h.value.returns) ++
        (h.fields.flatMap (·.full) ++ lineBreak h.returns) := by
    simp [full, Line.full]
  rw [hsplit, Text.encode_append, List.append_assoc, readHeader_junk hjunk h.value.noFeed,
    readHeader_fields]

end Header

/-! ## Segments -/

/-- A header and a body of the length that it announces. -/
structure Frame extends Header where
  body : Bytes
  announces : toHeader.length? = some body.length
  fits : body.length ≤ maxBody

namespace Frame

/-- All bytes of a frame. -/
def bytes (f : Frame) : Bytes := Text.encode f.full ++ f.body

/-- The frame that a body is written in. -/
def ofBody (body : Bytes) (h : body.length ≤ maxBody) : Frame where
  toHeader := .ofLength body.length
  body
  announces := Header.length?_ofLength (Nat.lt_of_le_of_lt h (by decide))
  fits := h

/-- **A frame gives what its body holds**, and no byte behind it is touched. -/
theorem readMessage_bytes (f : Frame) {junk : Text} (hjunk : ¬ lengthMark <:+: junk)
    (rest : Bytes) :
    readMessage (Text.encode junk ++ f.bytes ++ rest) = some (Message.decode f.body, rest) := by
  have hsplit : Text.encode junk ++ f.bytes ++ rest =
      Text.encode (junk ++ f.full) ++ (f.body ++ rest) := by
    simp [bytes]
  have hlength : readLength (Text.trim f.value.text) = .ok f.body.length := by
    have hcount : Text.count? (Text.trim f.value.text) = some f.body.length := f.announces
    rw [readLength, hcount]
  rw [hsplit, readMessage, f.readHeader_full hjunk, hlength]
  simp only [readBody]
  rw [if_neg (Nat.not_lt.mpr f.fits), if_neg (by simp), List.take_left, List.drop_left]

end Frame

/-- A header that announces no length. -/
structure BadHeader extends Header where
  unreadable : toHeader.length? = none

/-- **A bad header gives one fault**, and no byte behind it is touched. -/
theorem BadHeader.readMessage_full (h : BadHeader) {junk : Text} (hjunk : ¬ lengthMark <:+: junk)
    (rest : Bytes) :
    readMessage (Text.encode junk ++ Text.encode h.full ++ rest) = some (.error h.fault, rest) := by
  have hlength : readLength (Text.trim h.value.text) = .error h.fault := by
    have hcount : Text.count? (Text.trim h.value.text) = none := h.unreadable
    rw [readLength, hcount]
    rfl
  rw [← Text.encode_append, readMessage, h.readHeader_full hjunk, hlength]
  rfl

/-- A piece of a stream. -/
inductive Segment
  | frame (f : Frame)
  | badHeader (h : BadHeader)
  | junk (t : Text) (unmarked : ¬ lengthMark <:+: t)

namespace Segment

/-- The bytes of a segment. -/
def bytes : Segment → Bytes
  | frame f => f.bytes
  | badHeader h => Text.encode h.full
  | junk t _ => Text.encode t

/-- What reading a segment gives. -/
def results : Segment → List (Except Error Message)
  | frame f => [Message.decode f.body]
  | badHeader h => [.error h.fault]
  | junk _ _ => []

/-- Whether a segment is junk. -/
def isJunk : Segment → Bool
  | junk _ _ => true
  | _ => false

/-- One of two segments that follow each other is not junk. -/
def Apart (s t : Segment) : Prop := s.isJunk = false ∨ t.isJunk = false

end Segment

/-! ## Reading to the end -/

/-- Read after read, a stream gives these results and then nothing. -/
inductive Reads : Bytes → List (Except Error Message) → Prop
  | done {input : Bytes} : readMessage input = none → Reads input []
  | next {input rest : Bytes} {result : Except Error Message}
      {results : List (Except Error Message)} :
      readMessage input = some (result, rest) → Reads rest results → Reads input (result :: results)

/-- What is read first comes first. -/
theorem readMessages_cons {input rest : Bytes} {result : Except Error Message}
    (h : readMessage input = some (result, rest)) (hstream : ∀ fault, result ≠ .error (.stream fault)) :
    readMessages input = result :: readMessages rest := by
  cases input with
  | nil => simp [readMessage, readHeader] at h
  | cons b input =>
    rw [readMessages]
    split
    · simp_all
    · next fault _ hfault =>
      obtain ⟨rfl, -⟩ := Prod.mk.inj (Option.some.inj (hfault.symm.trans h))
      exact absurd rfl (hstream fault)
    · next hnext =>
      obtain ⟨rfl, rfl⟩ := Prod.mk.inj (Option.some.inj (hnext.symm.trans h))
      rfl

/-- What a stream gives is what a server receives, unless the stream itself fails. -/
theorem Reads.readMessages_eq {input : Bytes} {results : List (Except Error Message)}
    (h : Reads input results) (hstream : ∀ fault, .error (.stream fault) ∉ results) :
    readMessages input = results := by
  induction h with
  | @done input h =>
    cases input with
    | nil => rw [readMessages]
    | cons b input =>
      rw [readMessages]
      split
      · rfl
      · simp_all
      · simp_all
  | @next input rest result results h _ ih =>
    have hfirst : ∀ fault, result ≠ .error (.stream fault) := fun fault heq =>
      hstream fault (heq ▸ List.mem_cons_self)
    rw [readMessages_cons h hfirst, ih fun fault hfault =>
      hstream fault (List.mem_cons_of_mem _ hfault)]

theorem decode_ne_stream (body : Bytes) (fault : StreamFault) :
    Message.decode body ≠ .error (.stream fault) := by
  rw [Message.decode]
  split <;> simp

namespace Segment

theorem stream_notMem_results (s : Segment) (fault : StreamFault) :
    .error (.stream fault) ∉ s.results := by
  cases s with
  | frame f => simpa [results] using (decode_ne_stream f.body fault).symm
  | badHeader h => simp [results, Header.fault]
  | junk => simp [results]

/-- The induction carries the junk in front of the segments: the next segment takes it along, and
is no junk itself unless that is empty. -/
theorem reads_flatMap {junk : Text} (hjunk : ¬ lengthMark <:+: junk) {segments : List Segment}
    (happart : segments.IsChain Apart)
    (hfirst : junk = [] ∨ ∀ s ∈ segments.head?, s.isJunk = false) :
    Reads (Text.encode junk ++ segments.flatMap bytes) (segments.flatMap results) := by
  induction segments generalizing junk with
  | nil =>
    refine .done ?_
    rw [List.flatMap_nil, List.append_nil, readMessage, readHeader_unmarked hjunk]
  | cons s segments ih =>
    obtain ⟨hnext, hchain⟩ := List.isChain_cons.mp happart
    rw [List.flatMap_cons, List.flatMap_cons, ← List.append_assoc]
    cases s with
    | frame f =>
      have hrest := ih unmarked_nil hchain (.inl rfl)
      exact .next (f.readMessage_bytes hjunk _) hrest
    | badHeader h =>
      have hrest := ih unmarked_nil hchain (.inl rfl)
      exact .next (h.readMessage_full hjunk _) hrest
    | junk t ht =>
      obtain rfl : junk = [] := by
        rcases hfirst with h | h
        · exact h
        · exact absurd (h _ rfl) (by simp [isJunk])
      refine ih ht hchain (.inr fun s hs => ?_)
      exact (hnext s hs).resolve_left (by simp [isJunk])

/-- **A stream is read segment by segment**, and then nothing is left. -/
theorem reads_stream (segments : List Segment) (h : segments.IsChain Apart) :
    Reads (segments.flatMap bytes) (segments.flatMap results) ∧
      readMessages (segments.flatMap bytes) = segments.flatMap results := by
  have hreads := reads_flatMap unmarked_nil h (.inl rfl)
  refine ⟨hreads, hreads.readMessages_eq fun fault hfault => ?_⟩
  obtain ⟨s, -, hs⟩ := List.mem_flatMap.mp hfault
  exact s.stream_notMem_results fault hs

/-- Junk that shares its last line with a bad header, and a body that holds the mark. -/
theorem reads_stream_shared_line :
    let junk := Segment.junk "a\n\nContent-Len" ((Text.not_mentions_iff (by decide)).mp (by decide))
    let bad := Segment.badHeader ⟨⟨⟨" x", 0, by decide⟩, [], 0⟩, by decide⟩
    let body := "\x7b\"seq\":7,\"type\":\"request\",\n\"command\":\"Content-Length: 2\"\x7d"
    let frame := Segment.frame
      (.ofBody (Text.encode body) (Nat.le_trans (m := 64) (by decide) (by decide)))
    let segments := [junk, bad, junk, frame]
    let results := [.error (.protocol "bad Content-Length 'x'"),
      .ok ⟨7, "request", .request "Content-Length: 2" none⟩]
    segments.IsChain Apart ∧ Reads (segments.flatMap bytes) results ∧
      readMessages (segments.flatMap bytes) = results := by
  intro junk bad body frame segments results
  have hchain : segments.IsChain Apart :=
    .cons_cons (.inr rfl) (.cons_cons (.inl rfl) (.cons_cons (.inr rfl) (.singleton _)))
  have hresults : segments.flatMap Segment.results = results := by cbv
  exact ⟨hchain, hresults ▸ reads_stream segments hchain⟩

end Segment

end Workbench.Wire
