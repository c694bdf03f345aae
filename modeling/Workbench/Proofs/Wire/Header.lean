import Workbench.Proofs.Text.Scan
import Workbench.Proofs.Text.Utf8
import Workbench.Wire.Frame

/-!
# Proofs/Wire/Header — a header is read line by line

One line read is one step (`readHeader_line`), and a line does one of three things: it announces a
length (`read_announcing`), it ends the header (`read_empty`), or it is passed over (`read_passed`).
What stands in front of a header is passed over as a whole, whether or not it ends in a line break
of its own (`readHeader_junk`).
-/

namespace Workbench

/-! ## Line breaks -/

/-- A line break: a line feed, with any number of carriage returns before it. -/
def lineBreak (returns : Nat) : Text := List.replicate returns '\r' ++ ['\n']

/-- Whether a character belongs to line breaks. -/
abbrev isBreak (c : Char) : Bool := c = '\r' || c = '\n'

/-- A line break is whatever returns and feeds a line ends in. -/
theorem dropLineBreak_eq (t : Text) : dropLineBreak t = t.rdropWhile isBreak := rfl

theorem isBreak_of_mem_lineBreak {k : Nat} {c : Char} (h : c ∈ lineBreak k) : isBreak c := by
  rcases List.mem_append.mp h with h | h
  · simp [List.eq_of_mem_replicate h]
  · simp [List.mem_singleton.mp h]

theorem isBlank_of_isBreak {c : Char} (h : isBreak c) : Text.isBlank c := by
  rcases (Bool.or_eq_true _ _).mp h with h | h <;> rw [of_decide_eq_true h] <;> decide

/-- Only what is behind the last character that belongs to no line break is dropped. -/
theorem dropLineBreak_append_cons {c : Char} (h : isBreak c = false) (s t : Text) :
    dropLineBreak (s ++ c :: t) = s ++ c :: dropLineBreak t := by
  have hkeep : (c :: s.reverse).dropWhile isBreak = c :: s.reverse :=
    List.dropWhile_cons_of_neg (by simp [h])
  rw [dropLineBreak, dropLineBreak, List.reverse_append, List.reverse_cons, List.append_assoc,
    List.singleton_append, List.dropWhile_append]
  split
  · next hempty => rw [hkeep, List.isEmpty_iff.mp hempty]; simp
  · simp

/-- A line is the same with one line break and with any number of returns in front of its feed. -/
theorem dropLineBreak_append_lineBreak (t : Text) (k : Nat) :
    dropLineBreak (t ++ lineBreak k) = dropLineBreak t := by
  rw [dropLineBreak, dropLineBreak, List.reverse_append, List.dropWhile_append_of_pos]
  exact fun c hc => isBreak_of_mem_lineBreak (List.mem_reverse.mp hc)

theorem dropLineBreak_eq_nil {t : Text} : dropLineBreak t = [] ↔ ∀ c ∈ t, isBreak c := by
  rw [dropLineBreak_eq, List.rdropWhile_eq_nil_iff]

/-- What is dropped with the line break would have been trimmed. -/
theorem trim_dropLineBreak (t : Text) : Text.trim (dropLineBreak t) = Text.trim t := by
  conv_rhs => rw [← List.rdropWhile_append_rtakeWhile (p := isBreak) (l := t)]
  refine (Text.trim_append_of_blank _ fun c hc => ?_).symm
  exact isBlank_of_isBreak (List.mem_rtakeWhile_imp hc)

/-! ## The lines of a text -/

/-- A text is its first line with the lines behind it, or has no line feed. -/
@[elab_as_elim]
theorem Text.lineInduction {motive : Text → Prop} (last : ∀ t, '\n' ∉ t → motive t)
    (line : ∀ l t, '\n' ∉ l → motive t → motive (l ++ '\n' :: t)) (t : Text) : motive t := by
  by_cases h : '\n' ∈ t
  · obtain ⟨l, rest, rfl, hl⟩ := List.eq_append_cons_of_mem h
    exact line l rest hl (Text.lineInduction last line rest)
  · exact last t h
termination_by t.length
decreasing_by
  simp_all only [List.length_append, List.length_cons]
  omega

/-- A line reaches through its line feed. -/
theorem takeLine_append_feed {line : Bytes} (h : 10 ∉ line) (rest : Bytes) :
    takeLine (line ++ 10 :: rest) = (line ++ [10], rest) := by
  induction line with
  | nil => simp [takeLine]
  | cons b line ih =>
    obtain ⟨hb, hline⟩ := not_or.mp (List.mem_cons.not.mp h)
    rw [List.cons_append, takeLine, if_neg (Ne.symm hb), ih hline]
    rfl

theorem takeLine_of_notMem {line : Bytes} (h : 10 ∉ line) : takeLine line = (line, []) := by
  induction line with
  | nil => rfl
  | cons b line ih =>
    obtain ⟨hb, hline⟩ := not_or.mp (List.mem_cons.not.mp h)
    rw [takeLine, if_neg (Ne.symm hb), ih hline]

/-- No byte is lost between a line and what is behind it. -/
theorem takeLine_append (input : Bytes) : (takeLine input).1 ++ (takeLine input).2 = input := by
  induction input with
  | nil => rfl
  | cons b input ih =>
    rw [takeLine]
    split
    · rfl
    · rw [List.cons_append, ih]

/-- Every line but the last ends with a line feed. -/
theorem feed_suffix_takeLine (input : Bytes) :
    (takeLine input).2 = [] ∨ [10] <:+ (takeLine input).1 := by
  induction input with
  | nil => exact .inl rfl
  | cons b input ih =>
    rw [takeLine]
    split
    · next hb => exact .inr (hb ▸ List.suffix_refl _)
    · exact ih.imp_right fun h => h.trans (List.suffix_cons _ _)

/-! ## One line -/

variable {announced : Announced} {t : Text}

/-- A line of a text is taken as a whole, with its break. -/
theorem takeLine_encode (ht : '\n' ∉ t) (k : Nat) (rest : Bytes) :
    takeLine (Text.encode (t ++ lineBreak k) ++ rest) = (Text.encode (t ++ lineBreak k), rest) := by
  have hfeed : Text.encode ['\n'] = [10] := by decide
  have hline : 10 ∉ Text.encode (t ++ List.replicate k '\r') := by
    rw [Text.feed_mem_encode, List.mem_append]
    rintro (h | h)
    · exact ht h
    · exact absurd (List.eq_of_mem_replicate h) (by decide)
  rw [lineBreak, ← List.append_assoc, Text.encode_append, hfeed, List.append_assoc,
    List.singleton_append, takeLine_append_feed hline]

/-- A line read is one step. -/
theorem readHeader_line (ht : '\n' ∉ t) (announced : Announced) (k : Nat) (rest : Bytes) :
    readHeader announced (Text.encode (t ++ lineBreak k) ++ rest) =
      match announced.read (t ++ lineBreak k) with
      | .inr length => .ok (some (length, rest))
      | .inl announced => readHeader announced rest := by
  obtain ⟨b, input, hinput⟩ :
      ∃ b input, Text.encode (t ++ lineBreak k) ++ rest = b :: input :=
    List.exists_cons_of_ne_nil fun h => by
      have := congrArg (10 ∈ ·) h
      simp [Text.feed_mem_encode, lineBreak] at this
  cases hread : announced.read (t ++ lineBreak k) with
  | inl announced' =>
    rw [hinput, readHeader, ← hinput, takeLine_encode ht, Text.decode_encode]
    simp only [hread]
  | inr length =>
    rw [hinput, readHeader, ← hinput, takeLine_encode ht, Text.decode_encode]
    simp only [hread]

/-! ## What a line does -/

/-- A line that says something does not end the header, nor does any before a length. -/
theorem read_of_goesOn (h : announced = none ∨ dropLineBreak t ≠ []) :
    announced.read t = .inl (announced.after (dropLineBreak t)) := by
  unfold Announced.read
  split
  · next hempty =>
    rcases h with h | h
    · cases h
    · exact absurd hempty h
  · rfl

/-- A last line without a line break ends no header, unless it is empty. -/
theorem readHeader_last (ht : '\n' ∉ t) (h : announced = none ∨ dropLineBreak t ≠ []) :
    readHeader announced (Text.encode t) = .ok none := by
  cases hencode : Text.encode t with
  | nil => rw [readHeader]
  | cons b input =>
    have hline : 10 ∉ Text.encode t := by rwa [Text.feed_mem_encode]
    rw [readHeader, ← hencode, takeLine_of_notMem hline, Text.decode_encode]
    simp only [read_of_goesOn h]
    rw [readHeader]

theorem lengthMark_eq_cons : lengthMark = 'C' :: lengthMark.tail := rfl

theorem lengthMark_eq_concat : lengthMark = lengthMark.dropLast ++ [':'] := by decide

theorem unmarked_nil : ¬ lengthMark <:+: [] := by decide

/-- A text without the mark has none in its first line, and none behind that. -/
theorem unmarked_line {l : Text} (h : ¬ lengthMark <:+: l ++ '\n' :: t) :
    ¬ lengthMark <:+: l ∧ ¬ lengthMark <:+: t := by
  refine ⟨fun hl => ?_, fun ht => ?_⟩
  · exact h (hl.trans (List.prefix_append _ _).isInfix)
  · exact h (ht.trans ((List.suffix_cons _ _).trans (List.suffix_append _ _)).isInfix)

/-- A line without the mark changes nothing. -/
theorem after_of_unmarked (h : ¬ lengthMark <:+: t) : announced.after t = announced := by
  have hnone : Text.cutFirst lengthMark t = none :=
    Text.cutFirst_eq_none ((Text.not_mentions_iff (by decide)).mpr h)
  rw [Announced.after, hnone]

/-- A line that does not hold the mark is passed over, unless it ends a header. -/
theorem read_passed (h : ¬ lengthMark <:+: t) (h' : announced = none ∨ ∃ c ∈ t, isBreak c = false)
    (k : Nat) : announced.read (t ++ lineBreak k) = .inl announced := by
  have hmark : ¬ lengthMark <:+: dropLineBreak t := fun hwithin =>
    h (hwithin.trans (List.rdropWhile_prefix isBreak t).isInfix)
  have hgoesOn : announced = none ∨ dropLineBreak t ≠ [] :=
    h'.imp_right fun ⟨c, hc, hbreak⟩ hempty => by
      rw [dropLineBreak_eq_nil.mp hempty c hc] at hbreak
      cases hbreak
  rw [read_of_goesOn (by rwa [dropLineBreak_append_lineBreak]), dropLineBreak_append_lineBreak,
    after_of_unmarked hmark]

/-- An empty line ends the header once a length is announced. -/
theorem read_empty (length : Except Error Nat) (k : Nat) :
    Announced.read (some length) (lineBreak k) = .inr length := by
  have hempty : dropLineBreak (lineBreak k) = [] :=
    dropLineBreak_eq_nil.mpr fun c => isBreak_of_mem_lineBreak
  unfold Announced.read
  rw [hempty]

/-- The break behind a length goes with the rest of its line. -/
theorem dropLineBreak_marked (before value : Text) (k : Nat) :
    dropLineBreak (before ++ lengthMark ++ value ++ lineBreak k) =
      before ++ (lengthMark ++ dropLineBreak value) := by
  have hcolon : before ++ lengthMark ++ value =
      (before ++ lengthMark.dropLast) ++ ':' :: value := by
    conv_lhs => rw [lengthMark_eq_concat]
    simp only [List.append_assoc, List.singleton_append]
  rw [dropLineBreak_append_lineBreak, hcolon, dropLineBreak_append_cons (by decide)]
  conv_rhs => rw [lengthMark_eq_concat]
  simp only [List.append_assoc, List.singleton_append]

/-- A line with the mark announces what is behind it, whatever stands in front of it and whatever
was announced before. -/
theorem read_announcing {before : Text} (h : ¬ lengthMark <:+: before) (value : Text) (k : Nat) :
    announced.read (before ++ lengthMark ++ value ++ lineBreak k) =
      .inl (some (readLength (Text.trim value))) := by
  have hcut : Text.cutFirst lengthMark (before ++ (lengthMark ++ dropLineBreak value)) =
      some (before, dropLineBreak value) := Text.cutFirst_append (by decide) h
  have hgoesOn : before ++ (lengthMark ++ dropLineBreak value) ≠ [] := by
    rw [lengthMark_eq_cons]
    simp
  rw [read_of_goesOn (.inr (by rwa [dropLineBreak_marked])), dropLineBreak_marked, Announced.after,
    hcut]
  simp only [trim_dropLineBreak]

/-- A header ends with what it has announced. -/
theorem eq_of_read_inr {length : Except Error Nat} (h : announced.read t = .inr length) :
    announced = some length := by
  unfold Announced.read at h
  split at h
  · exact congrArg some (Sum.inr.inj h)
  · cases h

/-- A line announces nothing but what stands behind a mark of it. -/
theorem read_inl {announced' : Announced} (h : announced.read t = .inl announced') :
    announced' = announced ∨ ∃ before value, t = before ++ lengthMark ++ value ∧
      announced' = some (readLength (Text.trim value)) := by
  obtain rfl : announced.after (dropLineBreak t) = announced' := by
    unfold Announced.read at h
    split at h
    · cases h
    · exact Sum.inl.inj h
  rw [Announced.after]
  split
  · next before value hcut =>
    refine .inr ⟨before, value ++ t.rtakeWhile isBreak, ?_, ?_⟩
    · rw [← List.append_assoc, ← Text.eq_of_cutFirst hcut, dropLineBreak_eq,
        List.rdropWhile_append_rtakeWhile]
    · rw [Text.trim_append_of_blank value fun c hc =>
        isBlank_of_isBreak (List.mem_rtakeWhile_imp hc)]
  · exact .inl rfl

/-! ## Many lines -/

/-- What stands in front of a header is passed over, and may share a line with it. -/
theorem readHeader_junk {junk value : Text} (h : ¬ lengthMark <:+: junk) (hvalue : '\n' ∉ value)
    (k : Nat) (rest : Bytes) :
    readHeader none (Text.encode (junk ++ lengthMark ++ value ++ lineBreak k) ++ rest) =
      readHeader (some (readLength (Text.trim value))) rest := by
  induction junk using Text.lineInduction with
  | last junk hjunk =>
    have hline : '\n' ∉ junk ++ lengthMark ++ value := by
      simp only [List.mem_append, not_or]
      exact ⟨⟨hjunk, by decide⟩, hvalue⟩
    rw [readHeader_line hline, read_announcing h]
  | line l junk hl ih =>
    have hsplit : (l ++ '\n' :: junk) ++ lengthMark ++ value ++ lineBreak k =
        (l ++ lineBreak 0) ++ (junk ++ lengthMark ++ value ++ lineBreak k) := by
      simp [lineBreak]
    obtain ⟨hfirst, hrest⟩ := unmarked_line h
    rw [hsplit, Text.encode_append, List.append_assoc, readHeader_line hl,
      read_passed hfirst (.inl rfl)]
    exact ih hrest

/-- There is no header in a text without the mark. -/
theorem readHeader_unmarked {junk : Text} (h : ¬ lengthMark <:+: junk) :
    readHeader none (Text.encode junk) = .ok none := by
  induction junk using Text.lineInduction with
  | last junk hjunk => exact readHeader_last hjunk (.inl rfl)
  | line l junk hl ih =>
    have hsplit : l ++ '\n' :: junk = (l ++ lineBreak 0) ++ junk := by simp [lineBreak]
    obtain ⟨hfirst, hrest⟩ := unmarked_line h
    rw [hsplit, Text.encode_append, readHeader_line hl, read_passed hfirst (.inl rfl)]
    exact ih hrest

end Workbench
