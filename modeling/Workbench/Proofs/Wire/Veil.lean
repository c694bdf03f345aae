import Workbench.Proofs.Json.Shield
import Workbench.Proofs.Wire.Segment

/-!
# Proofs/Wire/Veil — no message is read from the middle of another

Where reading begins behind the first byte of a frame, it gives no message (`not_ok_of_suffix`): the
mark of the header is not complete any more, and any other mark stands in a string of the body, so
that there is no length behind it but a quote (`Veiled`).
-/

namespace Workbench.Wire

/-- Behind every mark of the text a quote comes before the line ends. -/
def Veiled (t : Text) : Prop :=
  ∀ before after, t = before ++ lengthMark ++ after → ∃ s u, after = s ++ '"' :: u ∧ '\n' ∉ s

variable {s t : Text}

/-! ## Texts that are veiled -/

/-- A value in a body is veiled, because the mark can only stand in its strings. -/
theorem Veiled.of_read? {v : Json} (h : Json.read? t = some v) : Veiled t := by
  rintro before after rfl
  have hshields : Json.Shields 'C' (before ++ lengthMark ++ after) :=
    Json.shields_of_read? (by decide) h
  obtain ⟨s, u, hsplit, hs⟩ := hshields before (lengthMark.tail ++ after) (by
    rw [lengthMark_eq_cons]
    simp)
  -- the quote stands behind the mark, which holds none
  rcases List.append_eq_append_iff.mp hsplit with ⟨s', rfl, hafter⟩ | ⟨mark', hmark, hquote⟩
  · exact ⟨s', u, hafter, fun hmem => hs (List.mem_append_right _ hmem)⟩
  · cases mark' with
    | nil => exact ⟨[], u, hquote.symm, List.not_mem_nil⟩
    | cons c mark' =>
      obtain ⟨rfl, -⟩ := List.cons_eq_cons.mp hquote
      have hmem : '"' ∈ lengthMark.tail := hmark ▸ List.mem_append_cons_self
      exact absurd hmem (by decide)

/-- A line without the mark leaves what follows it veiled. -/
theorem Veiled.line (hs : ¬ lengthMark <:+: s) (ht : Veiled t) (k : Nat) :
    Veiled (s ++ lineBreak k ++ t) := by
  have hline : ¬ lengthMark <:+: s ++ List.replicate k '\r' := by
    intro h
    rw [lengthMark_eq_concat] at hs h
    exact hs (Text.infix_of_infix_append h fun hmem =>
      absurd (List.eq_of_mem_replicate hmem) (by decide))
  intro before after h
  have hsplit : (s ++ List.replicate k '\r') ++ '\n' :: t = before ++ (lengthMark ++ after) := by
    simpa [lineBreak] using h
  rcases List.append_eq_append_iff.mp hsplit with ⟨left, rfl, hleft⟩ | ⟨left, hleft, hmark⟩
  · cases left with
    | nil =>
      rw [lengthMark_eq_cons] at hleft
      exact absurd (List.cons_eq_cons.mp hleft).1 (by decide)
    | cons c left =>
      exact ht left after (by simpa using (List.cons_eq_cons.mp hleft).2)
  · rcases List.append_eq_append_iff.mp hmark with ⟨rest, rfl, -⟩ | ⟨mark', hmark', hfeed⟩
    · exact absurd ⟨before, rest, by simp [hleft]⟩ hline
    · cases mark' with
      | nil =>
        rw [List.append_nil] at hmark'
        exact absurd ⟨before, [], by simp [hleft, hmark']⟩ hline
      | cons c mark' =>
        obtain ⟨rfl, -⟩ := List.cons_eq_cons.mp hfeed
        have hmem : '\n' ∈ lengthMark := hmark' ▸ List.mem_append_cons_self
        exact absurd hmem (by decide)

theorem Veiled.fields (fields : List Field) (ht : Veiled t) :
    Veiled (fields.flatMap (·.full) ++ t) := by
  induction fields with
  | nil => exact ht
  | cons f fields ih =>
    rw [List.flatMap_cons, List.append_assoc]
    exact .line f.unmarked ih f.returns

/-- A header that announces a length is veiled without its first character. -/
theorem Veiled.header {h : Header} {n : Nat} (hlength : h.length? = some n) (ht : Veiled t) :
    Veiled ((h.full ++ t).tail) := by
  have hvalue : 'C' ∉ h.value.text := by
    intro hmem
    have htrim : 'C' ∈ Text.trim h.value.text := Text.mem_trim hmem (by decide)
    exact absurd (Text.plus_or_isDigit_of_count? hlength htrim) (by decide)
  have hfirst : ¬ lengthMark <:+: lengthMark.tail ++ h.value.text := by
    intro hwithin
    have hmem : 'C' ∈ lengthMark.tail ++ h.value.text := hwithin.subset (by decide)
    exact (List.mem_append.mp hmem).elim (by decide) hvalue
  have hempty : Veiled (lineBreak h.returns ++ t) := Veiled.line unmarked_nil ht h.returns
  have hsplit : (h.full ++ t).tail =
      (lengthMark.tail ++ h.value.text) ++ lineBreak h.value.returns ++
        (h.fields.flatMap (·.full) ++ (lineBreak h.returns ++ t)) := by
    rw [Header.full, Line.full, lengthMark_eq_cons]
    simp
  rw [hsplit]
  exact .line hfirst (.fields h.fields hempty) h.value.returns

/-! ## Reading from the middle -/

theorem readLength_of_quote {value : Text} (h : '"' ∈ value) (n : Nat) :
    readLength (Text.trim value) ≠ .ok n := by
  have hnone : Text.count? (Text.trim value) = none := by
    rw [Option.eq_none_iff_forall_ne_some]
    intro n hcount
    have htrim : '"' ∈ Text.trim value := Text.mem_trim h (by decide)
    exact absurd (Text.plus_or_isDigit_of_count? hcount htrim) (by decide)
  rw [readLength, hnone]
  intro h
  cases h

/-- The quote that veils a mark stands in the line of the mark. -/
theorem Veiled.quote_mem {before value : Text} {skipped rest : Bytes} (ht : Veiled t)
    (h : Text.encode t = skipped ++ Text.encode (before ++ lengthMark ++ value) ++ rest)
    (hline : rest = [] ∨ '\n' ∈ value) : '"' ∈ value := by
  -- the mark begins with a character of its own in the bytes, so it stands in the text as well
  have hmark : Text.encode t = (skipped ++ Text.encode before) ++
      UInt8.ofNat ('C').toNat :: (Text.encode (lengthMark.tail ++ value) ++ rest) := by
    have hcons : Text.encode (before ++ lengthMark ++ value) = Text.encode before ++
        UInt8.ofNat ('C').toNat :: Text.encode (lengthMark.tail ++ value) := by
      rw [List.append_assoc, Text.encode_append, lengthMark_eq_cons]
      rfl
    rw [h, hcons]
    simp
  obtain ⟨front, behind, rfl, -, hbehind⟩ :=
    Text.exists_of_encode_eq_append_cons (c := 'C') (by decide) hmark
  obtain ⟨u, rfl, rfl⟩ := Text.exists_of_encode_eq_append hbehind.symm
  obtain ⟨s', u', hquote, hs'⟩ := ht front (value ++ u) (by
    conv_rhs => rw [lengthMark_eq_cons]
    simp)
  have hlast : u = [] ∨ '\n' ∈ value := hline.imp_left Text.encode_eq_nil.mp
  rcases List.append_eq_append_iff.mp hquote with ⟨left, rfl, hleft⟩ | ⟨left, hleft, hcons⟩
  · -- the quote would stand behind the line
    rcases hlast with rfl | hfeed
    · exact absurd hleft (by simp)
    · exact absurd (List.mem_append_left _ hfeed) hs'
  · cases left with
    | nil =>
      rw [List.append_nil] at hleft
      rcases hlast with rfl | hfeed
      · exact absurd hcons (by simp)
      · exact absurd (hleft ▸ hfeed) hs'
    | cons c left =>
      obtain ⟨rfl, -⟩ := List.cons_eq_cons.mp hcons
      exact hleft ▸ List.mem_append_cons_self

/-- The line feed at the end of a line with a mark stands behind the mark. -/
theorem feed_mem_of_suffix {before value : Text}
    (h : ['\n'] <:+ before ++ lengthMark ++ value) : '\n' ∈ value := by
  rcases List.eq_nil_or_concat value with rfl | ⟨value, c, rfl⟩
  · rw [lengthMark_eq_concat, List.append_nil, ← List.append_assoc] at h
    obtain ⟨front, h⟩ := h
    exact absurd (List.append_inj_right' h rfl) (by decide)
  · rw [List.concat_eq_append, ← List.append_assoc] at h
    obtain ⟨front, h⟩ := h
    obtain rfl : '\n' = c := List.head_eq_of_cons_eq (List.append_inj_right' h rfl)
    simp

/-- No length is announced from the middle of a veiled text on. -/
theorem Veiled.length_ne_ok {announced : Announced} {input rest : Bytes}
    {length : Except Error Nat} (ht : Veiled t) (hinput : input <:+ Text.encode t)
    (hannounced : ∀ n, announced ≠ some (.ok n))
    (h : readHeader announced input = .ok (some (length, rest))) (n : Nat) : length ≠ .ok n := by
  fun_induction readHeader announced input with
  | case1 => cases h
  | case2 => cases h
  | case3 announced b input line _ length' hread =>
    obtain ⟨rfl, -⟩ : length' = length ∧ _ := by simpa using h
    rintro rfl
    exact hannounced n (eq_of_read_inr hread)
  | case4 announced b input line hdecode announced' hread ih =>
    obtain ⟨skipped, hskipped⟩ := hinput
    have hinput : Text.encode t = skipped ++ Text.encode line ++ (takeLine (b :: input)).2 := by
      rw [← hskipped, ← Text.eq_encode_of_decode hdecode, List.append_assoc, takeLine_append]
    refine ih ⟨_, hinput.symm⟩ ?_ h
    rcases read_inl hread with rfl | ⟨before, value, rfl, rfl⟩
    · exact hannounced
    · have hline : (takeLine (b :: input)).2 = [] ∨ '\n' ∈ value := by
        refine (feed_suffix_takeLine _).imp_right fun hfeed => ?_
        rw [Text.eq_encode_of_decode hdecode] at hfeed
        exact feed_mem_of_suffix (Text.feed_suffix_of_encode hfeed)
      intro n hn
      exact readLength_of_quote (ht.quote_mem hinput hline) n (Option.some.inj hn)

theorem exists_of_decode {body : Bytes} {m : Message} (h : Message.decode body = .ok m) :
    ∃ t v, body = Text.encode t ∧ Json.read? t = some v := by
  rw [Message.decode] at h
  split at h
  · next hm =>
    obtain ⟨v, hv, -⟩ := Option.bind_eq_some_iff.mp hm
    obtain ⟨t, ht, hv⟩ := Option.bind_eq_some_iff.mp hv
    exact ⟨t, v, Text.eq_encode_of_decode ht, hv⟩
  · cases h

/-- **No message is read from the middle of another**, neither from a later place in its header nor
from one in its body. -/
theorem Frame.not_ok_of_suffix {f : Frame} {m : Message} (hbody : Message.decode f.body = .ok m)
    {input : Bytes} (hinput : input <:+ f.bytes.tail) (m' : Message) (behind : Bytes) :
    readMessage input ≠ some (.ok m', behind) := by
  obtain ⟨t, v, ht, hv⟩ := exists_of_decode hbody
  have hveiled : Veiled ((f.full ++ t).tail) := .header f.announces (.of_read? hv)
  have hbytes : f.bytes.tail = Text.encode ((f.full ++ t).tail) := by
    rw [Frame.bytes, ht, ← Text.encode_append, Header.full, lengthMark_eq_cons]
    rfl
  rw [hbytes] at hinput
  intro h
  rw [readMessage] at h
  split at h
  · cases h
  · cases h
  · next length rest hheader =>
    cases length with
    | error e => cases h
    | ok n => exact hveiled.length_ne_ok hinput (by simp) hheader n rfl

end Workbench.Wire
