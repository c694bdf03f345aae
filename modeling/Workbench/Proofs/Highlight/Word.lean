import Workbench.Proofs.Highlight.Lexeme
import Workbench.Proofs.Text.Scan

/-!
# Proofs/Highlight/Word — the words of a source and what they are classified as

A word is a longest run of word characters.  What neither begins nor ends inside a word is apart
from it or holds it (`Word.apart_or_within`): two words are the same or apart, and a number that
meets a word holds it.  A recogniser that finds words (`Finds`) claims those of its words that are
left (`Finds.mem_sweep_iff`), so the tiers can be settled one after the other.
-/

namespace Workbench.Highlight

variable {source : Text} {spans : List Span} {s : Span} {j k : Nat} {l : Lexeme} {kind kind' : Kind}

/-- Behind a word there is a word character. -/
theorem behindWord_getLast? {t : Text} (ht : t ≠ []) (h : ∀ c ∈ t, isWord c) :
    behindWord t.getLast? := by
  rw [List.getLast?_eq_some_getLast ht]
  exact h _ (List.getLast_mem ht)

theorem behindWord_head? {t : Text} (ht : t ≠ []) (h : ∀ c ∈ t, isWord c) : behindWord t.head? := by
  rw [List.head?_eq_some_head ht]
  exact h _ (List.head_mem ht)

/-- A word of a source: a run of word characters with no word character on either side of it. -/
@[ext]
structure Word (source : Text) where
  before : Text
  text : Text
  behind : Text
  source_eq : source = before ++ (text ++ behind)
  nonempty : text ≠ []
  isWord : ∀ c ∈ text, isWord c
  begins : ¬ behindWord before.getLast?
  ends : ¬ behindWord behind.head?

namespace Word

variable (w v : Word source)

/-- The span of a word. -/
def span (kind : Kind) : Span :=
  ⟨Text.bytes w.before, Text.bytes w.before + Text.bytes w.text, kind⟩

/-! ## The places of a word -/

/-- The place where a word begins. -/
def start : Nat := w.before.length

/-- The place where a word ends. -/
def stop : Nat := w.start + w.text.length

/-- What is in front of a word in the source is what the word has before it. -/
theorem take_start : source.take w.start = w.before :=
  calc source.take w.start = (w.before ++ (w.text ++ w.behind)).take w.start :=
        congrArg (List.take w.start) w.source_eq
    _ = w.before := List.take_left

theorem drop_start : source.drop w.start = w.text ++ w.behind :=
  calc source.drop w.start = (w.before ++ (w.text ++ w.behind)).drop w.start :=
        congrArg (List.drop w.start) w.source_eq
    _ = w.text ++ w.behind := List.drop_left

theorem drop_stop : source.drop w.stop = w.behind := by
  rw [stop, ← List.drop_drop, drop_start, List.drop_left]

/-- The text of a word is cut out of the source by its places. -/
theorem text_eq : w.text = (source.drop w.start).take (w.stop - w.start) := by
  rw [stop, Nat.add_sub_cancel_left, drop_start, List.take_left]

theorem start_lt_stop : w.start < w.stop :=
  Nat.lt_add_of_pos_right (List.length_pos_iff.mpr w.nonempty)

theorem stop_le : w.stop ≤ source.length := by
  have h := congrArg List.length w.source_eq
  rw [List.length_append, List.length_append] at h
  rw [stop, start]
  omega

/-- The span of a word goes from its first place to its last. -/
theorem span_eq (kind : Kind) : w.span kind = spanOf source w.start w.stop kind := by
  have htext : w.text <+: source.drop w.start := ⟨w.behind, w.drop_start.symm⟩
  rw [spanOf, stop, offsetAt_of_prefix htext, offsetAt, w.take_start]
  rfl

/-- A word is known from its places. -/
theorem eq_of_places {w v : Word source} (hstart : w.start = v.start) (hstop : w.stop = v.stop) : w = v := by
  refine Word.ext ?_ ?_ ?_
  · rw [← w.take_start, ← v.take_start, hstart]
  · rw [w.text_eq, v.text_eq, hstart, hstop]
  · rw [← w.drop_stop, ← v.drop_stop, hstop]

/-- A place between the ends of a word is inside it. -/
theorem insideWord (hstart : w.start < k) (hstop : k < w.stop) : InsideWord source k := by
  obtain ⟨i, rfl⟩ := Nat.exists_eq_add_of_lt hstart
  rw [stop] at hstop
  have hleft : w.text.take (i + 1) ≠ [] := by
    rw [Ne, List.take_eq_nil_iff]
    simpa using w.nonempty
  have hright : w.text.drop (i + 1) ≠ [] := by
    rw [Ne, List.drop_eq_nil_iff]
    omega
  rw [InsideWord, Nat.add_assoc, List.take_add, ← List.drop_drop, drop_start, take_start,
    List.take_append_of_le_length (by omega), List.drop_append_of_le_length (by omega),
    List.getLast?_append_of_ne_nil _ hleft, List.head?_append_of_ne_nil _ hright]
  exact ⟨behindWord_getLast? hleft fun c hc => w.isWord c (List.mem_of_mem_take hc),
    behindWord_head? hright fun c hc => w.isWord c (List.mem_of_mem_drop hc)⟩

/-- A word is maximal: nothing goes on where it begins. -/
theorem not_insideWord_start : ¬ InsideWord source w.start := by
  rintro ⟨h, -⟩
  rw [take_start] at h
  exact w.begins h

/-- A word is maximal: nothing goes on where it ends. -/
theorem not_insideWord_stop : ¬ InsideWord source w.stop := by
  rintro ⟨-, h⟩
  rw [drop_stop] at h
  exact w.ends h

/-- What neither begins nor ends inside a word is apart from a word or holds it. -/
theorem apart_or_within (w : Word source) (kind kind' : Kind) (hbegins : ¬ InsideWord source j)
    (hends : ¬ InsideWord source k) :
    (w.span kind).Apart (spanOf source j k kind') ∨ j ≤ w.start ∧ w.stop ≤ k := by
  by_cases hbefore : w.stop ≤ j
  · rw [span_eq]
    exact .inl (.inl (monotone_offsetAt source hbefore))
  by_cases hbehind : k ≤ w.start
  · rw [span_eq]
    exact .inl (.inr (monotone_offsetAt source hbehind))
  refine .inr ⟨?_, ?_⟩
  · by_contra hlt
    exact hbegins (w.insideWord (by omega) (by omega))
  · by_contra hlt
    exact hends (w.insideWord (by omega) (by omega))

theorem span_start_lt_stop (kind : Kind) : (w.span kind).start < (w.span kind).stop := by
  rw [span_eq]
  exact offsetAt_lt w.start_lt_stop w.stop_le

/-- Words are the same or apart. -/
theorem eq_or_apart (w v : Word source) (kind kind' : Kind) :
    w = v ∨ (w.span kind).Apart (v.span kind') := by
  rcases w.apart_or_within kind kind' v.not_insideWord_start v.not_insideWord_stop with
    hapart | ⟨hstart, hstop⟩
  · rw [v.span_eq]
    exact .inr hapart
  rcases v.apart_or_within kind' kind w.not_insideWord_start w.not_insideWord_stop with
    hapart | ⟨hstart', hstop'⟩
  · rw [w.span_eq]
    exact .inr (symm hapart)
  · exact .inl (eq_of_places (Nat.le_antisymm hstart' hstart) (Nat.le_antisymm hstop hstop'))

/-- A word is known by its span. -/
theorem eq_of_span_eq {w v : Word source} (h : w.span kind = v.span kind) : w = v := by
  refine (w.eq_or_apart v kind kind).resolve_right fun hapart => ?_
  rw [h] at hapart
  exact Span.not_apart_self (v.span_start_lt_stop kind) hapart

end Word

/-! ## Recognisers of words -/

/-- A recogniser finds the words with a property, and reads behind them nothing that a word could
be made of. -/
structure Finds (r : Recogniser) (kind : Kind) (P : Word source → Prop) : Prop where
  finds : ∀ w : Word source, P w → ∃ tail, recognise r source w.start = some ⟨kind, w.text, tail⟩
  found : ∀ j l, recognise r source j = some l → ∃ w : Word source, P w ∧ w.start = j ∧
    l.kind = kind ∧ l.body = w.text ∧ l.tail <+: w.behind ∧ ∀ c ∈ l.tail, ¬ isWord c

namespace Finds

variable {r : Recogniser} {P : Word source → Prop} (h : Finds r kind P)

include h

/-- What finds words finds what the source has there. -/
theorem reads : r.Reads source := by
  intro j l hl
  obtain ⟨w, -, rfl, -, hbody, htail, -⟩ := h.found j l hl
  rw [hbody, w.drop_start]
  exact (List.prefix_append_right_inj _).mpr htail

/-- The next word begins behind all that was read. -/
theorem separated : Separated r source := by
  intro i j l l' hl hl' hij
  obtain ⟨w, -, rfl, -, hbody, htail, hnot⟩ := h.found i l hl
  obtain ⟨v, -, rfl, -⟩ := h.found j l' hl'
  have hstop : w.stop ≤ v.start := by
    by_contra hlt
    exact v.not_insideWord_start (w.insideWord hij (Nat.lt_of_not_le hlt))
  obtain ⟨d, hd⟩ := Nat.exists_eq_add_of_le hstop
  by_contra hlt
  rw [Lexeme.length, List.length_append, hbody, ← Nat.add_assoc, ← Word.stop, hd] at hlt
  -- a word that began in what was read would begin with a character that no word has
  obtain ⟨behind, hbehind⟩ := htail
  have hdrop : l.tail.drop d ++ behind = v.text ++ v.behind := by
    rw [← v.drop_start, hd, ← List.drop_drop, w.drop_stop, ← hbehind,
      List.drop_append_of_le_length (by omega)]
  have hleft : l.tail.drop d ≠ [] := by
    rw [Ne, List.drop_eq_nil_iff]
    omega
  have hhead := congrArg List.head? hdrop
  rw [List.head?_append_of_ne_nil _ hleft, List.head?_append_of_ne_nil _ v.nonempty,
    List.head?_eq_some_head hleft, List.head?_eq_some_head v.nonempty] at hhead
  have hword := v.isWord _ (List.head_mem v.nonempty)
  rw [← Option.some.inj hhead] at hword
  exact hnot _ (List.mem_of_mem_drop (List.head_mem hleft)) hword

/-- **A sweep** for words claims those of its words that are apart from all spans. -/
theorem mem_sweep_iff (hlaid : Laid source spans) : s ∈ sweep (leftmost r) spans (.first source) ↔
    s ∈ spans ∨ ∃ w : Word source, P w ∧ s = w.span kind ∧ ∀ t ∈ spans, s.Apart t := by
  rw [Highlight.mem_sweep_iff h.reads h.separated hlaid]
  refine or_congr_right ⟨?_, ?_⟩
  · rintro ⟨j, l, -, hl, -, rfl, hapart⟩
    obtain ⟨w, hw, rfl, hkind, hbody, -⟩ := h.found j l hl
    refine ⟨w, hw, ?_, hapart⟩
    rw [w.span_eq, Word.stop, hkind, hbody]
  · rintro ⟨w, hw, rfl, hapart⟩
    obtain ⟨tail, hl⟩ := h.finds w hw
    exact ⟨w.start, _, Nat.le_trans (Nat.le_of_lt w.start_lt_stop) w.stop_le, hl, w.nonempty,
      w.span_eq kind, hapart⟩

/-- A sweep for words leaves all spans on the source. -/
theorem laid (hlaid : Laid source spans) : Laid source (sweep (leftmost r) spans (.first source)) :=
  hlaid.sweep h.reads

end Finds

/-! ## The words of a table, and the names of functions -/

/-- What is read as a word where a word begins is that word. -/
theorem Word.wordAt_eq (w : Word source) :
    wordAt (source.take w.start).getLast? (source.drop w.start) = w.text := by
  have hbehind : w.behind.takeWhile Highlight.isWord = [] := by
    have hends := w.ends
    cases hb : w.behind with
    | nil => rfl
    | cons c behind =>
      rw [hb] at hends
      exact List.takeWhile_cons_of_neg hends
  rw [wordAt, w.take_start, if_neg w.begins, w.drop_start, List.takeWhile_append_of_pos w.isWord,
    hbehind, List.append_nil]

/-- Where a word is read, a word begins. -/
theorem exists_word (h : wordAt (source.take j).getLast? (source.drop j) ≠ []) :
    ∃ w : Word source, w.start = j := by
  unfold wordAt at h
  split at h
  · exact absurd rfl h
  · next hbegins =>
    have hj : j ≤ source.length := by
      by_contra hlt
      rw [List.drop_eq_nil_of_le (by omega)] at h
      exact h rfl
    refine ⟨⟨source.take j, (source.drop j).takeWhile isWord, (source.drop j).dropWhile isWord,
      ?_, h, fun c hc => List.all_eq_true.mp List.all_takeWhile c hc, hbegins, ?_⟩, ?_⟩
    · rw [List.takeWhile_append_dropWhile, List.take_append_drop]
    · intro hword
      obtain ⟨c, hc, hword⟩ := (Option.any_eq_true _ _).mp hword
      rw [Text.head?_dropWhile isWord _ c hc] at hword
      cases hword
    · exact List.length_take_of_le hj

/-- A table finds the words that are in it. -/
theorem finds_wordIn (table : List Text) (kind : Kind) :
    Finds (wordIn table kind) kind fun w : Word source => w.text ∈ table := by
  constructor
  · intro w hw
    refine ⟨[], ?_⟩
    simp only [recognise, wordIn, w.wordAt_eq]
    exact if_pos ⟨hw, w.nonempty⟩
  · intro j l hl
    simp only [recognise, wordIn] at hl
    split at hl
    · next hword =>
      obtain ⟨w, rfl⟩ := exists_word hword.2
      rw [w.wordAt_eq] at hword hl
      obtain rfl := Option.some.inj hl
      exact ⟨w, hword.1, rfl, rfl, rfl, List.nil_prefix, List.forall_mem_nil _⟩
    · cases hl

/-- A word character is no blank. -/
theorem isBlank_of_isWord {c : Char} (h : isWord c) : Text.isBlank c = false := by
  simp only [isWord, Char.isAlphanum, Char.isAlpha, Char.isUpper, Char.isLower, Char.isDigit,
    Bool.or_eq_true, Bool.and_eq_true, decide_eq_true_eq, ge_iff_le, UInt32.le_iff_toNat_le] at h
  simp only [Text.isBlank, CodeRanges.holds, Text.blankRanges, List.any_cons, List.any_nil,
    Bool.or_false, Bool.or_eq_false_iff, Bool.and_eq_false_iff, decide_eq_false_iff_not]
  rcases h with h | rfl
  · have h' : c.val.toNat = c.toNat := rfl
    simp only [h', UInt32.reduceToNat, Char.reduceVal] at h
    omega
  · decide

/-- A word begins with a digit. -/
def Word.BeginsWithDigit (w : Word source) : Prop := ∃ c ∈ w.text.head?, c.isDigit

/-- An opening parenthesis follows a word, perhaps behind blanks. -/
def Word.Called (w : Word source) : Prop :=
  ∃ blanks rest, w.behind = blanks ++ '(' :: rest ∧ ∀ c ∈ blanks, Text.isBlank c

/-- A word is called if the next that is no blank behind it opens a parenthesis. -/
theorem Word.called_iff (w : Word source) :
    w.Called ↔ (w.behind.dropWhile Text.isBlank).head? = some '(' := by
  constructor
  · rintro ⟨blanks, rest, hbehind, hblanks⟩
    rw [hbehind, List.dropWhile_append_of_pos hblanks]
    rfl
  · intro h
    obtain ⟨rest, hrest⟩ := List.head?_eq_some_iff.mp h
    refine ⟨w.behind.takeWhile Text.isBlank, rest, ?_, List.all_eq_true.mp List.all_takeWhile⟩
    rw [← hrest, List.takeWhile_append_dropWhile]

/-- What is recognised as a call. -/
theorem Word.recognise_call (w : Word source) : recognise call source w.start = some l ↔
    ¬ w.BeginsWithDigit ∧ w.Called ∧
      ⟨.function, w.text, w.behind.takeWhile Text.isBlank ++ ['(']⟩ = l := by
  rw [recognise, call]
  simp only [w.wordAt_eq]
  rw [w.drop_start, List.drop_left, w.called_iff, BeginsWithDigit]
  split
  · next first more _ rest htext hbehind =>
    simp [htext, hbehind]
  · next hneither =>
    simp only [reduceCtorEq, false_iff, not_and]
    intro _ hcalled
    obtain ⟨rest, hrest⟩ := List.head?_eq_some_iff.mp hcalled
    obtain ⟨first, more, htext⟩ := List.exists_cons_of_ne_nil w.nonempty
    exact absurd hrest (hneither first more rest htext)

/-- Names of functions are words that do not begin with a digit and are called. -/
theorem finds_call : Finds call .function fun w : Word source => ¬ w.BeginsWithDigit ∧ w.Called := by
  constructor
  · intro w ⟨hdigit, hcalled⟩
    exact ⟨_, w.recognise_call.mpr ⟨hdigit, hcalled, rfl⟩⟩
  · intro j l hl
    have hword : wordAt (source.take j).getLast? (source.drop j) ≠ [] := by
      intro hword
      simp [recognise, call, hword] at hl
    obtain ⟨w, rfl⟩ := exists_word hword
    obtain ⟨hdigit, hcalled, rfl⟩ := w.recognise_call.mp hl
    refine ⟨w, ⟨hdigit, hcalled⟩, rfl, rfl, rfl, ?_, ?_⟩
    · obtain ⟨rest, hrest⟩ := List.head?_eq_some_iff.mp (w.called_iff.mp hcalled)
      refine ⟨rest, ?_⟩
      rw [List.append_assoc, List.singleton_append, ← hrest, List.takeWhile_append_dropWhile]
    · intro c hc hword
      rcases List.mem_append.mp hc with hc | hc
      · have hblank := List.all_eq_true.mp List.all_takeWhile c hc
        rw [isBlank_of_isWord hword] at hblank
        cases hblank
      · rw [List.mem_singleton.mp hc] at hword
        exact absurd hword (by decide)

end Workbench.Highlight
