import Workbench.Proofs.Highlight.Word

/-!
# Proofs/Highlight/Classify — what the words of a source are classified as

A word outside of the comments and string literals of a source can only be claimed as a whole, and
the tiers are offered it one after the other: the first that has use for it gets it
(`classifies_words`).
-/

namespace Workbench.Highlight

variable {source : Text} {spans : List Span} {s : Span} {kind : Kind}

/-! ## Words that are left -/

/-- A word is apart from all spans. -/
def Word.Free (w : Word source) (spans : List Span) : Prop :=
  ∀ s ∈ spans, (w.span s.kind).Apart s

/-- A word is outside of all comments and string literals. -/
def Word.Outside (w : Word source) (spans : List Span) : Prop :=
  ∀ s ∈ spans, s.kind = .comment ∨ s.kind = .string → (w.span s.kind).Apart s

namespace Finds

variable {r : Recogniser} {P : Word source → Prop} (h : Finds r kind P) (hlaid : Laid source spans)

include h hlaid

/-- What is found is left to nobody else. -/
theorem free_sweep_iff (w : Word source) :
    w.Free (sweep (leftmost r) spans (.first source)) ↔ w.Free spans ∧ ¬ P w := by
  constructor
  · intro hfree
    have hold : w.Free spans := fun s hs => hfree s ((h.mem_sweep_iff hlaid).mpr (.inl hs))
    refine ⟨hold, fun hw => ?_⟩
    have hmem := (h.mem_sweep_iff hlaid).mpr (.inr ⟨w, hw, rfl, hold⟩)
    exact Span.not_apart_self ((h.laid hlaid).holding _ hmem) (hfree _ hmem)
  · rintro ⟨hold, hw⟩ s hs
    rcases (h.mem_sweep_iff hlaid).mp hs with hs | ⟨v, hv, rfl, -⟩
    · exact hold s hs
    · exact (w.eq_or_apart v _ _).resolve_left fun heq => hw (heq ▸ hv)

/-- What is found is claimed if it is left. -/
theorem span_mem_sweep_iff {w : Word source} (hnew : w.span kind ∉ spans) :
    w.span kind ∈ sweep (leftmost r) spans (.first source) ↔ w.Free spans ∧ P w := by
  rw [h.mem_sweep_iff hlaid]
  constructor
  · rintro (hs | ⟨v, hv, heq, hapart⟩)
    · exact absurd hs hnew
    · exact ⟨hapart, Word.eq_of_span_eq heq ▸ hv⟩
  · rintro ⟨hfree, hw⟩
    exact .inr ⟨w, hw, rfl, hfree⟩

/-- As something else than it is found as, a word is not claimed. -/
theorem span_mem_sweep_of_ne (w : Word source) (kind' : Kind) (hne : kind' ≠ kind) :
    w.span kind' ∈ sweep (leftmost r) spans (.first source) ↔ w.span kind' ∈ spans := by
  rw [h.mem_sweep_iff hlaid, or_iff_left_iff_imp]
  rintro ⟨v, -, heq, -⟩
  exact absurd (congrArg Span.kind heq) hne

/-- A sweep for words adds spans of words only. -/
theorem eq_span_of_mem_sweep (hs : s ∈ sweep (leftmost r) spans (.first source)) :
    s ∈ spans ∨ ∃ w : Word source, s = w.span s.kind := by
  rcases (h.mem_sweep_iff hlaid).mp hs with hs | ⟨w, -, rfl, -⟩
  · exact .inl hs
  · exact .inr ⟨w, rfl⟩

end Finds

/-! ## Before the words -/

/-- The spans that no word is offered to: comments, string literals and numbers. -/
def wordless (lang : Language) (source : Text) : List Span :=
  sweep (leftmost number) (sweep (leftmost (commentOrString lang)) [] (.first source)) (.first source)

theorem laid_wordless (lang : Language) (source : Text) : Laid source (wordless lang source) :=
  (Laid.nil.sweep (reads_commentOrString lang)).sweep reads_number

/-- The tiers before the words find comments, strings and numbers only. -/
theorem mem_wordless {lang : Language} (h : s ∈ wordless lang source) :
    (s.kind = .comment ∨ s.kind = .string) ∨ s.kind = .number ∧
      ∃ j l, IsNumber source j l ∧ s = spanOf source j (j + l.body.length) s.kind := by
  rcases reads_number.exists_of_mem_sweep (Nat.zero_le _) h with h | ⟨j, l, -, hl, rfl⟩
  · rcases (reads_commentOrString lang).exists_of_mem_sweep (Nat.zero_le _) h with
      h | ⟨j, l, -, hl, rfl⟩
    · cases h
    · exact .inl (of_commentOrString hl).1
  · have hnumber := isNumber_of_recognise hl
    exact .inr ⟨hnumber.kind, j, l, hnumber, rfl⟩

/-- No span of a word comes from the tiers before. -/
theorem not_mem_wordless {lang : Language}
    (h : s.kind = .builtin ∨ s.kind = .keyword ∨ s.kind = .function) : s ∉ wordless lang source := by
  intro hs
  rcases mem_wordless hs with (h' | h') | ⟨h', -⟩ <;> simp [h'] at h

/-- The words that a number meets are made of digits. -/
theorem IsNumber.apart_or_digits {j : Nat} {l : Lexeme} (h : IsNumber source j l) (w : Word source)
    (kind kind' : Kind) : (w.span kind).Apart (spanOf source j (j + l.body.length) kind') ∨
      ∀ c ∈ w.text, c.isDigit := by
  refine (w.apart_or_within kind kind' h.begins h.ends).imp_right fun ⟨hstart, hstop⟩ c hc => ?_
  have hbody : c ∈ l.body := by
    obtain ⟨behind, hbehind⟩ := h.here
    obtain ⟨d, hd⟩ := Nat.exists_eq_add_of_le hstart
    have hlt := w.start_lt_stop
    rw [w.text_eq, hd, ← List.drop_drop, ← hbehind, List.drop_append_of_le_length (by omega),
      List.take_append_of_le_length (by rw [List.length_drop]; omega)] at hc
    exact List.mem_of_mem_drop (List.mem_of_mem_take hc)
  refine (h.chars c hbody).resolve_right ?_
  rintro rfl
  exact absurd (w.isWord _ hc) (by decide)

/-- A word that is not made of digits is left to the words' tiers. -/
theorem Word.Outside.free {lang : Language} {w : Word source} (h : w.Outside (wordless lang source))
    (hdigits : ¬ ∀ c ∈ w.text, c.isDigit) : w.Free (wordless lang source) := by
  intro s hs
  rcases mem_wordless hs with hkind | ⟨-, j, l, hnumber, heq⟩
  · exact h s hs hkind
  · rw [heq]
    exact (hnumber.apart_or_digits w _ _).resolve_right hdigits

open Workbench.Language in
/-- No word of a table is made of digits. -/
theorem not_digits_of_mem (lang : Language) :
    ∀ t ∈ lang.builtins ++ lang.keywords, ¬ ∀ c ∈ t, c.isDigit := by
  cases lang <;> simp [builtins, keywords, pythonBuiltins, pythonKeywords, javaBuiltins,
    javaKeywords, htmlKeywords]

/-- A word that does not begin with a digit is not all digits. -/
theorem Word.not_digits (w : Word source) (h : ¬ w.BeginsWithDigit) :
    ¬ ∀ c ∈ w.text, c.isDigit := by
  intro hdigits
  have hhead := List.head?_eq_some_head w.nonempty
  exact h ⟨_, hhead, hdigits _ (List.head_mem w.nonempty)⟩

/-! ## The tiers of words -/

/-- The spans before the keywords are offered. -/
def withBuiltins (lang : Language) (source : Text) : List Span :=
  sweep (leftmost (wordIn lang.builtins .builtin)) (wordless lang source) (.first source)

/-- The spans before calls are offered. -/
def withKeywords (lang : Language) (source : Text) : List Span :=
  sweep (leftmost (wordIn lang.keywords .keyword)) (withBuiltins lang source) (.first source)

theorem laid_withBuiltins (lang : Language) (source : Text) :
    Laid source (withBuiltins lang source) :=
  (finds_wordIn _ _).laid (laid_wordless lang source)

theorem laid_withKeywords (lang : Language) (source : Text) :
    Laid source (withKeywords lang source) :=
  (finds_wordIn _ _).laid (laid_withBuiltins lang source)

/-- The spans of a source lie on it. -/
theorem laid_tokenize (lang : Language) (source : Text) : Laid source (tokenize lang source) :=
  finds_call.laid (laid_withKeywords lang source)

/-- What one tier claims is kept by the later ones. -/
theorem mem_tokenize_of_mem {lang : Language} (h : s ∈ wordless lang source) :
    s ∈ tokenize lang source := by
  have hzero := Nat.zero_le source.length
  exact mem_sweep_of_mem hzero (mem_sweep_of_mem hzero (mem_sweep_of_mem hzero h))

variable {lang : Language} {w : Word source}

theorem free_withBuiltins_iff : w.Free (withBuiltins lang source) ↔
    w.Free (wordless lang source) ∧ w.text ∉ lang.builtins :=
  (finds_wordIn _ _).free_sweep_iff (laid_wordless lang source) w

/-- A word is left to the last tier if neither of the tables has it. -/
theorem free_withKeywords_iff : w.Free (withKeywords lang source) ↔
    w.Free (wordless lang source) ∧ w.text ∉ lang.builtins ∧ w.text ∉ lang.keywords := by
  rw [← and_assoc, ← free_withBuiltins_iff]
  exact (finds_wordIn _ _).free_sweep_iff (laid_withBuiltins lang source) w

theorem mem_withBuiltins_of_ne (w : Word source) (kind : Kind) (hne : kind ≠ .builtin) :
    w.span kind ∈ withBuiltins lang source ↔ w.span kind ∈ wordless lang source :=
  (finds_wordIn _ _).span_mem_sweep_of_ne (laid_wordless lang source) w kind hne

theorem mem_withKeywords_of_ne (w : Word source) (kind : Kind) (hne : kind ≠ .keyword) :
    w.span kind ∈ withKeywords lang source ↔ w.span kind ∈ withBuiltins lang source :=
  (finds_wordIn _ _).span_mem_sweep_of_ne (laid_withBuiltins lang source) w kind hne

theorem mem_tokenize_of_ne (w : Word source) (kind : Kind) (hne : kind ≠ .function) :
    w.span kind ∈ tokenize lang source ↔ w.span kind ∈ withKeywords lang source :=
  finds_call.span_mem_sweep_of_ne (laid_withKeywords lang source) w kind hne

/-- A builtin is a free word of the table of builtins. -/
theorem builtin_mem_iff : w.span .builtin ∈ tokenize lang source ↔
    w.Free (wordless lang source) ∧ w.text ∈ lang.builtins := by
  rw [mem_tokenize_of_ne w .builtin nofun, mem_withKeywords_of_ne w .builtin nofun]
  exact (finds_wordIn _ _).span_mem_sweep_iff (laid_wordless lang source)
    (not_mem_wordless (.inl rfl))

/-- A keyword is a free word of the table of keywords that is no builtin. -/
theorem keyword_mem_iff : w.span .keyword ∈ tokenize lang source ↔
    (w.Free (wordless lang source) ∧ w.text ∉ lang.builtins) ∧ w.text ∈ lang.keywords := by
  rw [mem_tokenize_of_ne w .keyword nofun, ← free_withBuiltins_iff]
  refine (finds_wordIn _ _).span_mem_sweep_iff (laid_withBuiltins lang source) ?_
  rw [mem_withBuiltins_of_ne w .keyword nofun]
  exact not_mem_wordless (.inr (.inl rfl))

/-- A name of a function is a free word of neither table that is called. -/
theorem function_mem_iff : w.span .function ∈ tokenize lang source ↔
    (w.Free (wordless lang source) ∧ w.text ∉ lang.builtins ∧ w.text ∉ lang.keywords) ∧
      ¬ w.BeginsWithDigit ∧ w.Called := by
  rw [← free_withKeywords_iff]
  refine finds_call.span_mem_sweep_iff (laid_withKeywords lang source) ?_
  rw [mem_withKeywords_of_ne w .function nofun, mem_withBuiltins_of_ne w .function nofun]
  exact not_mem_wordless (.inr (.inr rfl))

/-- What is classified as a word is one. -/
theorem exists_word_of_mem (hs : s ∈ tokenize lang source)
    (hkind : s.kind = .builtin ∨ s.kind = .keyword ∨ s.kind = .function) :
    ∃ w : Word source, s = w.span s.kind := by
  refine (finds_call.eq_span_of_mem_sweep (laid_withKeywords lang source) hs).elim (fun hs => ?_) id
  refine ((finds_wordIn _ _).eq_span_of_mem_sweep (laid_withBuiltins lang source) hs).elim
    (fun hs => ?_) id
  refine ((finds_wordIn _ _).eq_span_of_mem_sweep (laid_wordless lang source) hs).elim
    (fun hs => ?_) id
  exact absurd hs (not_mem_wordless hkind)

/-- **Words are classified** outside of comments and string literals: the builtins as such, the
other keywords as such, and of all other words those that are called, unless they begin with a
digit.  Nothing else is classified as a word. -/
theorem classifies_words (lang : Language) (source : Text) :
    (∀ w : Word source, w.Outside (tokenize lang source) →
      (w.span .builtin ∈ tokenize lang source ↔ w.text ∈ lang.builtins) ∧
      (w.span .keyword ∈ tokenize lang source ↔
        w.text ∈ lang.keywords ∧ w.text ∉ lang.builtins) ∧
      (w.span .function ∈ tokenize lang source ↔
        (w.text ∉ lang.builtins ∧ w.text ∉ lang.keywords) ∧ ¬ w.BeginsWithDigit ∧ w.Called)) ∧
    ∀ s ∈ tokenize lang source, s.kind = .builtin ∨ s.kind = .keyword ∨ s.kind = .function →
      ∃ w : Word source, w.Outside (tokenize lang source) ∧ s = w.span s.kind ∧
        ∀ v : Word source, v = w ∨ (v.span s.kind).Apart s := by
  constructor
  · intro w hout
    have hfree : (¬ ∀ c ∈ w.text, c.isDigit) → w.Free (wordless lang source) :=
      Word.Outside.free fun s hs => hout s (mem_tokenize_of_mem hs)
    have hword : w.text ∈ lang.builtins ++ lang.keywords → w.Free (wordless lang source) :=
      fun hmem => hfree (not_digits_of_mem lang _ hmem)
    refine ⟨?_, ?_, ?_⟩
    · rw [builtin_mem_iff, and_iff_right_of_imp fun hmem => hword (List.mem_append_left _ hmem)]
    · rw [keyword_mem_iff, and_assoc, and_iff_right_of_imp fun hmem =>
        hword (List.mem_append_right _ hmem.2), and_comm]
    · rw [function_mem_iff, and_assoc, and_iff_right_of_imp fun hcall =>
        hfree (w.not_digits hcall.2.1)]
  · intro s hs hkind
    obtain ⟨w, hw⟩ := exists_word_of_mem hs hkind
    refine ⟨w, fun t ht hkind' => ?_, hw, fun v => ?_⟩
    · have hne : s ≠ t := by
        rintro rfl
        rcases hkind' with h | h <;> simp [h] at hkind
      have hapart := (laid_tokenize lang source).apart hs ht hne
      rwa [hw] at hapart
    · rw [hw]
      exact v.eq_or_apart w _ _

/-- A line with a keyword, a call, a string literal and a comment. -/
def callingLine : Text := "if f2 (\"len\"):  # max(x)"

/-- The word that is called in the line. -/
def calledWord : Word callingLine where
  before := ['i', 'f', ' ']
  text := ['f', '2']
  behind := ' ' :: "(\"len\"):  # max(x)"
  source_eq := rfl
  nonempty := nofun
  isWord := by simp [Highlight.isWord, Char.isAlphanum, Char.isAlpha, Char.isLower]
  begins := by decide
  ends := by decide

/-- The called word is classified as a function, being called and in no table, and it is the one
word that has to do with its span. -/
theorem classifies_called_word :
    calledWord.Outside (tokenize .python callingLine) ∧
      calledWord.span .function ∈ tokenize .python callingLine ∧
      ((calledWord.text ∉ Language.python.builtins ∧ calledWord.text ∉ Language.python.keywords) ∧
        ¬ calledWord.BeginsWithDigit ∧ calledWord.Called) ∧
      ∃ w : Word callingLine, w.Outside (tokenize .python callingLine) ∧
        calledWord.span .function = w.span .function ∧
        ∀ v : Word callingLine, v = w ∨ (v.span .function).Apart (calledWord.span .function) := by
  have htokens : tokenize .python callingLine =
      [⟨0, 2, .keyword⟩, ⟨3, 5, .function⟩, ⟨7, 12, .string⟩, ⟨16, 24, .comment⟩] := by cbv
  have hspan (kind : Kind) : calledWord.span kind = ⟨3, 5, kind⟩ := rfl
  have hout : calledWord.Outside (tokenize .python callingLine) := by
    rw [htokens]
    intro s hs hkind
    fin_cases hs <;> simp [hspan, Span.Apart] at hkind ⊢
  have hmem : calledWord.span .function ∈ tokenize .python callingLine := by
    rw [htokens, hspan]
    simp
  have hclassified := classifies_words .python callingLine
  exact ⟨hout, hmem, (hclassified.1 calledWord hout).2.2.mp hmem,
    hclassified.2 _ hmem (.inr (.inr rfl))⟩

end Workbench.Highlight
