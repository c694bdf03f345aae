import Workbench.Proofs.Highlight.Lexing

/-!
# Proofs/Highlight/Numeral — numbers from left to right

A number begins with a word of digits.  Behind that it takes a point that a word follows, and that
word as well if it too is made of digits (`Word.NumberEnds`).  A scan from left to right takes up one
word of digits after the other, but for those inside of comments and string literals and those that
the number before has taken already (`Numbers`); the second sweep is that scan, and what it claims
are the numbers of the source (`numbers_scanned`).
-/

namespace Workbench.Highlight

variable {lang : Language} {source : Text} {spans spans' found : List Span} {s : Span} {l : Lexeme}
  {w v : Word source} {j k : Nat} {kind : Kind}

/-! ## Where a number ends -/

/-- A word begins between a word character and what is none. -/
theorem exists_word_of_begins (hbefore : ¬ behindWord (source.take j).getLast?)
    (hbehind : behindWord (source.drop j).head?) : ∃ w : Word source, w.start = j := by
  refine exists_word ?_
  rw [wordAt, if_neg hbefore]
  cases hrest : source.drop j with
  | nil => simp [hrest, behindWord] at hbehind
  | cons c rest =>
    have hc : isWord c := by simpa [hrest, behindWord] using hbehind
    rw [List.takeWhile_cons_of_pos hc]
    exact List.cons_ne_nil _ _

namespace Word

/-- A word is made of digits. -/
def Digits (w : Word source) : Prop := ∀ c ∈ w.text, c.isDigit

/-- A word follows another behind a point. -/
def Pointed (w v : Word source) : Prop := w.behind.head? = some '.' ∧ v.start = w.stop + 1

/-- Where the number that begins with a word ends: with the word, if no word follows it behind a
point; else with that word if it is made of digits, and with the point if not. -/
inductive NumberEnds (w : Word source) : Nat → Prop
  | whole : (∀ rest, w.behind = '.' :: rest → ∀ c ∈ rest.head?, ¬ Highlight.isWord c) →
      w.NumberEnds w.stop
  | fraction {v : Word source} : w.Pointed v → v.Digits → w.NumberEnds v.stop
  | point {v : Word source} : w.Pointed v → ¬ v.Digits → w.NumberEnds (w.stop + 1)

/-- Only one word begins at a place. -/
theorem eq_of_start (h : w.start = v.start) : w = v := by
  have htext : w.text = v.text := by rw [← w.wordAt_eq, h, v.wordAt_eq]
  exact eq_of_places h (by rw [stop, stop, h, htext])

theorem Pointed.behind_eq (h : w.Pointed v) : w.behind = '.' :: (v.text ++ v.behind) := by
  obtain ⟨hpoint, hstart⟩ := h
  obtain ⟨rest, hrest⟩ := List.head?_eq_some_iff.mp hpoint
  rw [hrest, ← v.drop_start, hstart, ← List.drop_drop, w.drop_stop, hrest]
  rfl

theorem Pointed.unique {v' : Word source} (h : w.Pointed v) (h' : w.Pointed v') : v = v' :=
  eq_of_start (h.2.trans h'.2.symm)

/-- A word follows a point in front of a word character. -/
theorem exists_pointed {rest : Text} (hbehind : w.behind = '.' :: rest)
    (hrest : behindWord rest.head?) : ∃ v, w.Pointed v := by
  have hbefore : source.take (w.stop + 1) = source.take w.stop ++ ['.'] := by
    rw [List.take_add, w.drop_stop, hbehind]
    rfl
  have hdrop : source.drop (w.stop + 1) = rest := by
    rw [← List.drop_drop, w.drop_stop, hbehind]
    rfl
  obtain ⟨v, hv⟩ : ∃ v : Word source, v.start = w.stop + 1 := by
    refine exists_word_of_begins ?_ (hdrop ▸ hrest)
    rw [hbefore, List.getLast?_concat]
    decide
  exact ⟨v, by rw [hbehind]; rfl, hv⟩

/-- The number that begins with a word has an end. -/
theorem exists_numberEnds (w : Word source) : ∃ k, w.NumberEnds k := by
  by_cases hnone : ∀ rest, w.behind = '.' :: rest → ∀ c ∈ rest.head?, ¬ Highlight.isWord c
  · exact ⟨_, .whole hnone⟩
  · push Not at hnone
    obtain ⟨rest, hbehind, c, hc, hword⟩ := hnone
    obtain ⟨v, hv⟩ := exists_pointed hbehind ((Option.any_eq_true _ _).mpr ⟨c, hc, hword⟩)
    by_cases hdigits : v.Digits
    · exact ⟨_, .fraction hv hdigits⟩
    · exact ⟨_, .point hv hdigits⟩

/-- A number has all of the word that it begins with. -/
theorem NumberEnds.stop_le (h : w.NumberEnds k) : w.stop ≤ k := by
  cases h with
  | whole => exact Nat.le_refl _
  | @fraction v hv =>
    have := v.start_lt_stop
    rw [hv.2] at this
    omega
  | point => exact Nat.le_succ _

/-- **A number has one end.** -/
theorem NumberEnds.unique (h : w.NumberEnds j) (h' : w.NumberEnds k) : j = k := by
  have hfollowed {v : Word source} (hv : w.Pointed v)
      (hnone : ∀ rest, w.behind = '.' :: rest → ∀ c ∈ rest.head?, ¬ Highlight.isWord c) :
      False := by
    refine hnone _ hv.behind_eq (v.text.head v.nonempty) ?_ (v.isWord _ (List.head_mem v.nonempty))
    rw [List.head?_append_of_ne_nil _ v.nonempty]
    exact List.head?_eq_some_head v.nonempty
  cases h with
  | whole hnone =>
    cases h' with
    | whole => rfl
    | fraction hv => exact (hfollowed hv hnone).elim
    | point hv => exact (hfollowed hv hnone).elim
  | fraction hv hdigits =>
    cases h' with
    | whole hnone => exact (hfollowed hv hnone).elim
    | fraction hv' => rw [hv.unique hv']
    | point hv' hnot => exact absurd (hv.unique hv' ▸ hdigits) hnot
  | point hv hnot =>
    cases h' with
    | whole hnone => exact (hfollowed hv hnone).elim
    | fraction hv' hdigits => exact absurd (hv.unique hv' ▸ hdigits) hnot
    | point => rfl

end Word

/-! ## What is read as a number -/

theorem isWord_of_isDigit {c : Char} (h : c.isDigit) : isWord c := by
  simp [isWord, Char.isAlphanum, h]

/-- Digits in front of what is no word character are read off a text. -/
theorem digits_append {t behind : Text} (ht : ∀ c ∈ t, c.isDigit) (hbehind : ¬ behindWord behind.head?) :
    (t ++ behind).takeWhile Char.isDigit = t ∧ (t ++ behind).dropWhile Char.isDigit = behind := by
  rw [List.takeWhile_append_of_pos ht, List.dropWhile_append_of_pos ht]
  cases behind with
  | nil => exact ⟨List.append_nil t, rfl⟩
  | cons c behind =>
    have hc : ¬ c.isDigit := fun hdigit => hbehind (isWord_of_isDigit hdigit)
    rw [List.takeWhile_cons_of_neg hc, List.dropWhile_cons_of_neg hc, List.append_nil]
    exact ⟨rfl, rfl⟩

/-- Digits that end where a word could end are a word. -/
theorem Word.digits_iff (v : Word source) :
    ((v.text ++ v.behind).takeWhile Char.isDigit ≠ [] ∧
      ¬ behindWord ((v.text ++ v.behind).dropWhile Char.isDigit).head?) ↔ v.Digits := by
  constructor
  · rintro ⟨-, hends⟩ c hc
    by_contra hdigit
    have hleft : v.text.dropWhile Char.isDigit ≠ [] := fun hnone =>
      hdigit (List.dropWhile_eq_nil_iff.mp hnone c hc)
    rw [List.dropWhile_append, if_neg (by simpa using hleft), List.head?_append_of_ne_nil _ hleft]
      at hends
    exact hends (behindWord_head? hleft fun d hd =>
      v.isWord d ((List.dropWhile_sublist Char.isDigit).subset hd))
  · intro hdigits
    obtain ⟨htake, hdrop⟩ := digits_append hdigits v.ends
    rw [htake, hdrop]
    exact ⟨v.nonempty, v.ends⟩

/-- A word of digits that no word follows behind a point is a number. -/
theorem Word.Digits.numeral_whole (h : w.Digits)
    (hnone : ∀ rest, w.behind = '.' :: rest → ∀ c ∈ rest.head?, ¬ Highlight.isWord c) :
    numeral (source.drop w.start) = some w.text := by
  obtain ⟨htake, hdrop⟩ := digits_append h w.ends
  rw [w.drop_start]
  unfold numeral
  simp only [htake, hdrop, if_neg w.nonempty]
  split
  · rfl
  · next c rest hbehind =>
    split
    · next hpoint =>
      subst hpoint
      have hrest : ¬ behindWord rest.head? := by
        intro hrest
        obtain ⟨c, hc, hword⟩ := (Option.any_eq_true _ _).mp hrest
        exact hnone rest hbehind c hc hword
      have hplaces : rest.takeWhile Char.isDigit = [] := by
        simpa using (digits_append (List.forall_mem_nil _) hrest).1
      rw [hplaces, if_neg fun hfraction => hfraction.1 rfl, if_neg hrest]
    · rw [if_neg fun hword => w.ends (by rw [hbehind]; exact hword)]

/-- Behind a point, a second word of digits is taken with the point. -/
theorem Word.Digits.numeral_fraction (h : w.Digits) (hv : w.Pointed v) (hdigits : v.Digits) :
    numeral (source.drop w.start) = some (w.text ++ '.' :: v.text) := by
  obtain ⟨htake, hdrop⟩ := hv.behind_eq ▸ digits_append h w.ends
  rw [w.drop_start, hv.behind_eq]
  unfold numeral
  simp only [htake, hdrop, if_neg w.nonempty, if_true]
  rw [if_pos (v.digits_iff.mpr hdigits), (digits_append hdigits v.ends).1]

/-- In front of any other word, the point is taken alone. -/
theorem Word.Digits.numeral_point (h : w.Digits) (hv : w.Pointed v) (hdigits : ¬ v.Digits) :
    numeral (source.drop w.start) = some (w.text ++ ['.']) := by
  obtain ⟨htake, hdrop⟩ := hv.behind_eq ▸ digits_append h w.ends
  have hword : behindWord (v.text ++ v.behind).head? := by
    rw [List.head?_append_of_ne_nil _ v.nonempty]
    exact behindWord_head? v.nonempty v.isWord
  rw [w.drop_start, hv.behind_eq]
  unfold numeral
  simp only [htake, hdrop, if_neg w.nonempty, if_true]
  rw [if_neg fun hfraction => hdigits (v.digits_iff.mp hfraction), if_pos hword]

/-- **A word of digits is read as a number**, up to its end. -/
theorem Word.Digits.exists_numeral (h : w.Digits) :
    ∃ n, numeral (source.drop w.start) = some n ∧ w.NumberEnds (w.start + n.length) := by
  obtain ⟨k, hends⟩ := w.exists_numberEnds
  cases hends with
  | whole hnone => exact ⟨w.text, h.numeral_whole hnone, .whole hnone⟩
  | @fraction v hv hdigits =>
    refine ⟨_, h.numeral_fraction hv hdigits, ?_⟩
    have hstop : w.start + (w.text ++ '.' :: v.text).length = v.stop := by
      rw [List.length_append, List.length_cons, stop, hv.2, stop]
      omega
    exact hstop ▸ .fraction hv hdigits
  | point hv hdigits =>
    refine ⟨_, h.numeral_point hv hdigits, ?_⟩
    rw [List.length_append, ← Nat.add_assoc]
    exact .point hv hdigits

theorem Word.Digits.exists_recognise (h : w.Digits) :
    ∃ l, recognise number source w.start = some l ∧ w.NumberEnds (w.start + l.body.length) := by
  obtain ⟨n, hn, hends⟩ := h.exists_numeral
  refine ⟨⟨.number, n, []⟩, ?_, hends⟩
  rw [recognise, number, w.take_start, if_neg w.begins, hn]
  rfl

theorem behindWord_of_numeral {t n : Text} (h : numeral t = some n) : behindWord t.head? := by
  cases t with
  | nil => cases h
  | cons c t =>
    by_contra hc
    have hdigit : ¬ c.isDigit := fun hdigit => hc (isWord_of_isDigit hdigit)
    rw [numeral, List.takeWhile_cons_of_neg hdigit] at h
    cases h

/-- **Only words of digits are read as numbers.** -/
theorem exists_digits_of_recognise (h : recognise number source j = some l) :
    ∃ w : Word source, w.start = j ∧ w.Digits ∧ w.NumberEnds (j + l.body.length) := by
  have hnumber := isNumber_of_recognise h
  obtain ⟨n, hn, hfresh, hbody⟩ : ∃ n, numeral (source.drop j) = some n ∧
      ¬ behindWord (source.take j).getLast? ∧ l.body = n := by
    rw [recognise, number] at h
    split at h
    · cases h
    · next hfresh =>
      obtain ⟨n, hn, rfl⟩ := Option.map_eq_some_iff.mp h
      exact ⟨n, hn, hfresh, rfl⟩
  obtain ⟨w, rfl⟩ := exists_word_of_begins hfresh (behindWord_of_numeral hn)
  have hpos : 0 < l.body.length := by
    obtain ⟨_, -, hnumeric⟩ := exists_of_numeral hn
    exact hbody ▸ List.length_pos_iff.mpr hnumeric.nonempty
  have hstart : w.start ≤ source.length := w.start_lt_stop.le.trans w.stop_le
  have hlt : offsetAt source w.start < offsetAt source (w.start + l.body.length) :=
    offsetAt_lt (Nat.lt_add_of_pos_right hpos) (reads_number.length_le h hstart)
  have hdigits : w.Digits := by
    refine (hnumber.apart_or_digits w .number .number).resolve_left ?_
    rw [w.span_eq]
    rintro (hle | hle)
    · exact absurd (offsetAt_lt w.start_lt_stop w.stop_le) (Nat.not_lt.mpr hle)
    · exact absurd hlt (Nat.not_lt.mpr hle)
  obtain ⟨l', hl', hends⟩ := hdigits.exists_recognise
  obtain rfl : l = l' := Option.some.inj (h.symm.trans hl')
  exact ⟨w, rfl, hdigits, hends⟩

theorem stop_le_of_recognise (h : recognise number source w.start = some l) :
    w.stop ≤ w.start + l.body.length := by
  obtain ⟨v, hv, -, hends⟩ := exists_digits_of_recognise h
  obtain rfl := Word.eq_of_start hv
  exact hends.stop_le

theorem length_le_of_recognise (h : recognise number source w.start = some l) :
    w.start + l.body.length ≤ source.length :=
  reads_number.length_le h (w.start_lt_stop.le.trans w.stop_le)

/-! ## The scan -/

/-- A word of digits that is outside of all comments and string literals. -/
structure Word.Counts (lang : Language) (w : Word source) : Prop where
  digits : w.Digits
  outside : w.Outside (tokenize lang source)

/-- What a scan for numbers finds from a place to the end of a source. -/
inductive Numbers (lang : Language) (source : Text) : Nat → List Span → Prop
  /-- No word of digits is left. -/
  | stop {j : Nat} : (∀ w : Word source, w.Counts lang → w.start < j) → Numbers lang source j []
  /-- The next word of digits begins a number, and the scan goes on behind that. -/
  | next {j k : Nat} {found : List Span} {w : Word source} : w.Counts lang → j ≤ w.start →
    (∀ v : Word source, v.Counts lang → j ≤ v.start → w.start ≤ v.start) → w.NumberEnds k →
    Numbers lang source k found →
    Numbers lang source j (spanOf source w.start k .number :: found)

/-- **The scan has one answer.** -/
theorem Numbers.unique {found' : List Span} (h : Numbers lang source j found)
    (h' : Numbers lang source j found') : found = found' := by
  induction h generalizing found' with
  | stop hnone =>
    cases h' with
    | stop => rfl
    | next hw hj => exact absurd (hnone _ hw) (Nat.not_lt.mpr hj)
  | next hw hj hfirst hends _ ih =>
    cases h' with
    | stop hnone => exact absurd (hnone _ hw) (Nat.not_lt.mpr hj)
    | next hw' hj' hfirst' hends' hrest' =>
      obtain rfl := Word.eq_of_start (Nat.le_antisymm (hfirst _ hw' hj') (hfirst' _ hw hj))
      obtain rfl := hends.unique hends'
      rw [ih hrest']

/-- Where no number begins, the scan goes on. -/
theorem Numbers.of_passed (h : Numbers lang source k found) (hjk : j ≤ k)
    (hnone : ∀ w : Word source, w.Counts lang → j ≤ w.start → k ≤ w.start) :
    Numbers lang source j found := by
  cases h with
  | stop hlast =>
    refine .stop fun w hw => ?_
    by_contra hle
    exact absurd (hlast w hw) (Nat.not_lt.mpr (hnone w hw (Nat.le_of_not_lt hle)))
  | next hw hk hfirst hends hrest =>
    exact .next hw (hjk.trans hk) (fun v hv hj => hfirst v hv (hnone v hv hj)) hends hrest

/-! ## Numbers beside comments and string literals -/

/-- No comment and no string literal begins with a digit or a point. -/
theorem Construct.begins (h : Construct lang source j k kind) :
    ∃ c, (source.drop j).head? = some c ∧ ¬ c.isDigit ∧ c ≠ '.' := by
  cases h with
  | comment h =>
    cases lang with
    | python =>
      rcases h with h | h
      · exact ⟨'#', h.1.head?_drop rfl, by decide, by decide⟩
      · exact ⟨'"', h.1.head?_drop rfl, by decide, by decide⟩
    | java =>
      rcases h with h | h
      · exact ⟨'/', h.1.head?_drop rfl, by decide, by decide⟩
      · exact ⟨'/', h.1.head?_drop rfl, by decide, by decide⟩
    | html => exact ⟨'<', h.1.head?_drop rfl, by decide, by decide⟩
  | literal _ hstands h =>
    obtain ⟨opening, quote, body, hopens, -, rfl⟩ := h
    cases hopens with
    | formatted => exact ⟨'f', hstands.head?_drop rfl, by decide, by decide⟩
    | double => exact ⟨'"', hstands.head?_drop rfl, by decide, by decide⟩
    | single => exact ⟨'\'', hstands.head?_drop rfl, by decide, by decide⟩

/-- A number does not reach into a construct that is apart from the word it begins with. -/
theorem apart_construct {i : Nat} {kind' : Kind} (hl : recognise number source w.start = some l)
    (hconstruct : Construct lang source i k kind) (hk : k ≤ source.length)
    (hapart : (w.span kind).Apart (spanOf source i k kind)) :
    (spanOf source w.start (w.start + l.body.length) kind').Apart (spanOf source i k kind) := by
  have hi : i ≤ source.length := hconstruct.lt.le.trans hk
  rw [w.span_eq] at hapart
  rcases hapart with hbehind | hbefore
  · have hbehind : w.stop ≤ i := (offsetAt_le_iff w.stop_le).mp hbehind
    refine .inl (monotone_offsetAt source ?_)
    by_contra hlt
    -- the construct would begin with a character of the number
    obtain ⟨c, hc, hdigit, hpoint⟩ := hconstruct.begins
    have hnumber := isNumber_of_recognise hl
    obtain ⟨rest, hrest⟩ := hnumber.here
    obtain ⟨d, rfl⟩ := Nat.exists_eq_add_of_le (w.start_lt_stop.le.trans hbehind)
    have hleft : l.body.drop d ≠ [] := by
      rw [Ne, List.drop_eq_nil_iff]
      omega
    rw [← List.drop_drop, ← hrest, List.drop_append_of_le_length (by omega),
      List.head?_append_of_ne_nil _ hleft] at hc
    exact (hnumber.chars c (List.mem_of_mem_drop (List.mem_of_head? hc))).elim hdigit hpoint
  · exact .inr hbefore

/-! ## The second sweep -/

/-- Whether a span is a number. -/
def Span.isNumber (s : Span) : Bool := s.kind = .number

/-- The spans when the second sweep has come to a place: the constructs of the source, and numbers
that end before it. -/
structure Scanned (lang : Language) (source : Text) (k : Nat) (spans : List Span) : Prop
    extends Laid source spans where
  constructs : spans.filter Span.isConstruct = (tokenize lang source).filter Span.isConstruct
  passed : ∀ s ∈ spans, s.isConstruct = true ∨ s.isNumber = true ∧ s.stop ≤ offsetAt source k

/-- A span that is claimed behind all others of its sort comes behind them. -/
theorem Ordered.filter_claim? {new : Span} {p : Span → Bool} (h : Ordered spans)
    (hclaim : claim? spans new = some spans')
    (hbefore : ∀ s ∈ spans, p s = true → s.stop ≤ new.start) (hnew : p new = true) :
    spans'.filter p = spans.filter p ++ [new] := by
  have hafter : (endingAfter new.start spans).filter p = [] := by
    refine List.filter_eq_nil_iff.mpr fun s hs hp => ?_
    have hmem := (mem_iff_before_or_after new.start).mpr (.inr hs)
    exact absurd (h.lt_stop_of_mem hs) (Nat.not_lt.mpr (hbefore s hmem hp))
  obtain ⟨-, rfl⟩ := claim?_eq_some_iff.mp hclaim
  conv_rhs => rw [← endingBefore_append_endingAfter new.start spans]
  rw [List.filter_append, List.filter_append, List.filter_cons_of_pos hnew, hafter, List.append_nil]

namespace Scanned

/-- The second sweep begins with what the first one found. -/
theorem start (lang : Language) (source : Text) :
    Scanned lang source 0 (sweep (leftmost (commentOrString lang)) [] (.first source)) where
  toLaid := Laid.nil.sweep (reads_commentOrString lang)
  constructs := by rw [← filter_tokenize, List.filter_filter]; simp
  passed s hs := by
    rw [← filter_tokenize] at hs
    exact .inl (List.mem_filter.mp hs).2

theorem mem_iff (h : Scanned lang source k spans) (hkind : s.isConstruct = true) :
    s ∈ spans ↔ s ∈ tokenize lang source := by
  have hfilter := congrArg (s ∈ ·) h.constructs
  simpa [List.mem_filter, hkind] using hfilter

theorem mono (h : Scanned lang source j spans) (hjk : j ≤ k) : Scanned lang source k spans where
  toLaid := h.toLaid
  constructs := h.constructs
  passed s hs := (h.passed s hs).imp_right fun ⟨hkind, hstop⟩ =>
    ⟨hkind, hstop.trans (monotone_offsetAt source hjk)⟩

/-- A word is outside of all constructs if it is apart from those among the spans. -/
theorem outside_of_free (h : Scanned lang source k spans)
    (hfree : ∀ s ∈ spans, (w.span s.kind).Apart s) : w.Outside (tokenize lang source) :=
  fun s hs hkind => hfree s ((h.mem_iff (decide_eq_true hkind)).mpr hs)

/-- **A number is claimed** if the word that it begins with is outside of all constructs. -/
theorem exists_claim?_iff (h : Scanned lang source k spans) (hk : k ≤ w.start)
    (hl : recognise number source w.start = some l) :
    (∃ spans', claim? spans (spanOf source w.start (w.start + l.body.length) .number) = some spans') ↔
      w.Outside (tokenize lang source) := by
  have hstop := stop_le_of_recognise hl
  rw [h.toOrdered.exists_claim?_iff]
  constructor
  · rintro ⟨-, hapart⟩
    refine h.outside_of_free fun s hs => ?_
    rw [w.span_eq]
    exact (hapart s hs).imp_left (monotone_offsetAt source hstop).trans
  · intro hout
    refine ⟨offsetAt_lt (w.start_lt_stop.trans_le hstop) (length_le_of_recognise hl), fun s hs => ?_⟩
    rcases h.passed s hs with hkind | ⟨-, hbefore⟩
    · have hmem := (h.mem_iff hkind).mp hs
      obtain ⟨i, j, hj, hconstruct, heq⟩ := exists_construct hmem hkind
      have hapart := hout s hmem (of_decide_eq_true hkind)
      rw [heq] at hapart ⊢
      exact apart_construct hl hconstruct hj hapart
    · exact .inr (hbefore.trans (monotone_offsetAt source hk))

/-- A claimed number comes behind those before, and the sweep goes on at its end. -/
theorem offer_of_outside (h : Scanned lang source k spans) (hk : k ≤ w.start)
    (hl : recognise number source w.start = some l) (hout : w.Outside (tokenize lang source)) :
    ∃ spans', offer spans (.ofLexeme (placeAt source w.start) l) =
        (spans', offsetAt source (w.start + l.body.length)) ∧
      Scanned lang source (w.start + l.body.length) spans' ∧
      spans'.filter Span.isNumber = spans.filter Span.isNumber ++
        [spanOf source w.start (w.start + l.body.length) .number] := by
  have hnumber := isNumber_of_recognise hl
  have hstart : w.start ≤ source.length := w.start_lt_stop.le.trans w.stop_le
  have hlt : w.start < w.start + l.body.length := w.start_lt_stop.trans_le (stop_le_of_recognise hl)
  obtain ⟨spans', hclaim⟩ := (h.exists_claim?_iff hk hl).mpr hout
  have hspan := reads_number.span_eq hl
  rw [hnumber.kind] at hspan
  have hbefore : ∀ s ∈ spans, s.isNumber = true → s.stop ≤ offsetAt source w.start := by
    intro s hs hkind
    rcases h.passed s hs with hconstruct | ⟨-, hstop⟩
    · simp_all [Span.isNumber, Span.isConstruct]
    · exact hstop.trans (monotone_offsetAt source hk)
  refine ⟨spans', ?_, ⟨h.toLaid.claim reads_number hstart hl (hspan ▸ hclaim), ?_, fun s hs => ?_⟩, ?_⟩
  · rw [reads_number.offer_of_claim hl (hspan ▸ hclaim), Lexeme.length, hnumber.tail, List.append_nil]
  · rw [filter_claim?_of_neg hclaim rfl, h.constructs]
  · rcases (mem_of_claim? hclaim).mp hs with rfl | hs
    · exact .inr ⟨rfl, Nat.le_refl _⟩
    · exact ((h.mono hk).mono hlt.le).passed s hs
  · exact h.toOrdered.filter_claim? hclaim hbefore rfl

/-- Behind a number that is refused, the sweep passes over no word of digits that counts. -/
theorem offer_of_not_outside (h : Scanned lang source k spans) (hk : k ≤ w.start)
    (hl : recognise number source w.start = some l) (hout : ¬ w.Outside (tokenize lang source)) :
    ∃ i, w.start < i ∧ i ≤ source.length ∧
      offer spans (.ofLexeme (placeAt source w.start) l) = (spans, offsetAt source i) ∧
      ∀ v : Word source, v.Counts lang → w.start < v.start → i ≤ v.start := by
  have hlt : w.start < source.length := w.start_lt_stop.trans_le w.stop_le
  have hclaim : claim? spans (Match.ofLexeme (placeAt source w.start) l).span = none := by
    rw [Option.eq_none_iff_forall_ne_some]
    intro spans' hclaim
    rw [reads_number.span_eq hl, (isNumber_of_recognise hl).kind] at hclaim
    exact hout ((h.exists_claim?_iff hk hl).mp ⟨spans', hclaim⟩)
  obtain ⟨i, hi, hle, hoffer, hnext⟩ := h.toLaid.exists_refused hlt hclaim
  refine ⟨i, hi, hle, hoffer, fun v hv hlater => ?_⟩
  rcases hnext with rfl | ⟨s, hs, hstart, hstop, hplace⟩
  · exact hlater
  · have hconstruct : s.isConstruct = true := by
      refine (h.passed s hs).resolve_right fun ⟨_, hpassed⟩ => ?_
      have := monotone_offsetAt source hk
      omega
    -- a word that began in the span would not be apart from it
    have hapart := hv.outside s ((h.mem_iff hconstruct).mp hs) (of_decide_eq_true hconstruct)
    rw [v.span_eq] at hapart
    rcases hapart with hbehind | hahead
    · have hbehind : offsetAt source v.stop ≤ s.start := hbehind
      have := offsetAt_lt hlater (v.start_lt_stop.le.trans v.stop_le)
      have := offsetAt_lt v.start_lt_stop v.stop_le
      omega
    · exact (offsetAt_le_iff hle).mp (hplace ▸ hahead)

end Scanned

/-- **The second sweep** is the scan: from a place on, it adds the numbers that the scan finds. -/
theorem sweep_numbers (hk : k ≤ source.length) (h : Scanned lang source k spans) :
    ∃ found, (sweep (leftmost number) spans (placeAt source k)).filter Span.isNumber =
        spans.filter Span.isNumber ++ found ∧ Numbers lang source k found := by
  have hread {w : Word source} (hw : w.Counts lang) : recognise number source w.start ≠ none := by
    obtain ⟨l, hl, -⟩ := hw.digits.exists_recognise
    rw [hl]
    exact Option.some_ne_none l
  induction hn : source.length - k using Nat.strong_induction_on generalizing k spans with
  | _ n ih =>
  subst hn
  cases hm : leftmost number (placeAt source k) with
  | none =>
    refine ⟨[], ?_, .stop fun w hw => ?_⟩
    · rw [sweep_of_none hm, List.append_nil]
    · by_contra hle
      exact hread hw (recognise_of_leftmost hk hm w.start (Nat.le_of_not_lt hle)
        (w.start_lt_stop.le.trans w.stop_le))
  | some m =>
    obtain ⟨j, l, hkj, hj, hl, rfl, hbefore⟩ := exists_of_leftmost hk hm
    obtain ⟨w, rfl, hdigits, hends⟩ := exists_digits_of_recognise hl
    have hfirst (v : Word source) (hv : v.Counts lang) (hkv : k ≤ v.start) : w.start ≤ v.start := by
      by_contra hlt
      exact hread hv (hbefore v.start hkv (Nat.lt_of_not_le hlt))
    by_cases hout : w.Outside (tokenize lang source)
    · obtain ⟨spans', hoffer, hscanned, hfilter⟩ := h.offer_of_outside hkj hl hout
      have hlt := w.start_lt_stop.trans_le hends.stop_le
      have hle := length_le_of_recognise hl
      obtain ⟨found, hsweep, hfound⟩ := ih _ (by omega) hle hscanned rfl
      refine ⟨spanOf source w.start (w.start + l.body.length) .number :: found, ?_,
        .next ⟨hdigits, hout⟩ hkj hfirst hends hfound⟩
      rw [sweep_of_offer hm hoffer hkj hlt hle, hsweep, hfilter, List.append_assoc,
        List.singleton_append]
    · obtain ⟨i, hi, hle, hoffer, hpassed⟩ := h.offer_of_not_outside hkj hl hout
      obtain ⟨found, hsweep, hfound⟩ := ih _ (by omega) hle (h.mono (hkj.trans hi.le)) rfl
      refine ⟨found, by rw [sweep_of_offer hm hoffer hkj hi hle, hsweep],
        hfound.of_passed (hkj.trans hi.le) fun v hv hkv => hpassed v hv ?_⟩
      -- the word that was refused does not count
      refine Nat.lt_of_le_of_ne (hfirst v hv hkv) fun heq => hout ?_
      obtain rfl := Word.eq_of_start heq
      exact hv.outside

/-- The numbers of a source are what the second sweep finds. -/
theorem filter_isNumber_tokenize (lang : Language) (source : Text) :
    (tokenize lang source).filter Span.isNumber = (wordless lang source).filter Span.isNumber :=
  filter_tokenize_eq_wordless fun _ _ _ hkind => by rcases hkind with rfl | rfl | rfl <;> rfl

/-- The first sweep finds no numbers. -/
theorem Scanned.filter_isNumber (h : Scanned lang source 0 spans) :
    spans.filter Span.isNumber = [] := by
  refine List.filter_eq_nil_iff.mpr fun s hs hkind => ?_
  rcases h.passed s hs with hconstruct | ⟨-, hstop⟩
  · simp_all [Span.isNumber, Span.isConstruct]
  · exact absurd (h.holding s hs) (Nat.not_lt.mpr (hstop.trans (Nat.zero_le _)))

/-- **Numbers** of a source are those that the scan finds, in order.  They have nothing of any word
but words of digits, and they are apart from all other spans. -/
theorem numbers_scanned (lang : Language) (source : Text) :
    (∀ found, Numbers lang source 0 found ↔
      (tokenize lang source).filter Span.isNumber = found) ∧
    (∀ w : Word source, ¬ w.Digits → ∀ s ∈ tokenize lang source, s.kind = .number →
      (w.span s.kind).Apart s) ∧
    ∀ s ∈ tokenize lang source, s.kind = .number → ∀ t ∈ tokenize lang source, s ≠ t → s.Apart t := by
  have hstart := Scanned.start lang source
  obtain ⟨found', hsweep, hfound⟩ := sweep_numbers (Nat.zero_le _) hstart
  have htokens : (tokenize lang source).filter Span.isNumber = found' := by
    rw [hstart.filter_isNumber, List.nil_append] at hsweep
    rw [filter_isNumber_tokenize]
    exact hsweep
  refine ⟨fun found => ⟨fun h => htokens.trans (hfound.unique h), ?_⟩, fun w hdigits s hs hkind => ?_,
    fun s hs _ t ht hne => (laid_tokenize lang source).apart hs ht hne⟩
  · rintro rfl
    exact htokens ▸ hfound
  · have hmem : s ∈ (tokenize lang source).filter Span.isNumber :=
      List.mem_filter.mpr ⟨hs, decide_eq_true hkind⟩
    rw [filter_isNumber_tokenize] at hmem
    rcases mem_wordless (List.mem_filter.mp hmem).1 with hconstruct | ⟨-, j, l, hnumber, heq⟩
    · simp [hkind] at hconstruct
    · rw [heq]
      exact (hnumber.apart_or_digits w _ _).resolve_right hdigits

/-- A line with points behind words of digits, a literal and a word that only begins with a digit. -/
def pointedLine : Text := "1.2.3 4.x \"5\" 6..7 8a"

/-- The word of the line that is not made of digits, though it begins with one. -/
def letteredWord : Word pointedLine where
  before := "1.2.3 4.x \"5\" 6..7 "
  text := ['8', 'a']
  behind := []
  source_eq := rfl
  nonempty := nofun
  isWord := by simp [Highlight.isWord, Char.isAlphanum, Char.isAlpha, Char.isLower, Char.isDigit]
  begins := by decide
  ends := by decide

/-- In the line, a point is taken in front of a word but not in front of another point, and the
place behind the first point is taken once. -/
theorem numbers_scanned_points :
    let found : List Span :=
      [⟨0, 3, .number⟩, ⟨4, 5, .number⟩, ⟨6, 8, .number⟩, ⟨14, 15, .number⟩, ⟨17, 18, .number⟩]
    Numbers .python pointedLine 0 found ∧ ¬ letteredWord.Digits ∧
      ∀ s ∈ found, (letteredWord.span s.kind).Apart s := by
  intro found
  have htokens : tokenize .python pointedLine = [⟨0, 3, .number⟩, ⟨4, 5, .number⟩, ⟨6, 8, .number⟩,
      ⟨10, 13, .string⟩, ⟨14, 15, .number⟩, ⟨17, 18, .number⟩] := by cbv
  have hdigits : ¬ letteredWord.Digits := fun h => absurd (h 'a' (by decide)) (by decide)
  obtain ⟨hscan, hapart, -⟩ := numbers_scanned .python pointedLine
  have hfound : (tokenize .python pointedLine).filter Span.isNumber = found := by
    rw [htokens]
    rfl
  refine ⟨(hscan found).mpr hfound, hdigits, fun s hs => ?_⟩
  rw [← hfound] at hs
  obtain ⟨hmem, hkind⟩ := List.mem_filter.mp hs
  exact hapart letteredWord hdigits s hmem (of_decide_eq_true hkind)

end Workbench.Highlight
