import Workbench.Proofs.Highlight.Classify
import Workbench.Proofs.Highlight.Construct

/-!
# Proofs/Highlight/Lexing — comments and string literals from left to right

A source is lexed from left to right: where a construct begins it is taken whole, elsewhere the
lexer goes on by one character (`Lexes`).  The lexer has one answer only (`Lexes.unique`), and the
first sweep gives it (`sweep_lexes`): every claim goes behind all others, so none is refused.  The
other tiers add numbers and words in between, and the comments and string literals of a source are
those of the lexer (`lexes_iff`).
-/

namespace Workbench.Highlight

variable {lang : Language} {source : Text} {spans found : List Span} {l : Lexeme}
  {j k : Nat} {kind : Kind}

/-! ## The lexer -/

/-- What a lexer finds from a place to the end of a source. -/
inductive Lexes (lang : Language) (source : Text) : Nat → List Span → Prop
  /-- At the end of the source. -/
  | stop : Lexes lang source source.length []
  /-- A construct is accepted, and the lexer goes on behind it. -/
  | accept {j k : Nat} {kind : Kind} {found : List Span} : Construct lang source j k kind →
    Lexes lang source k found → Lexes lang source j (spanOf source j k kind :: found)
  /-- Nothing begins at a place, and the lexer goes on at the next. -/
  | advance {j : Nat} {found : List Span} : j < source.length →
    (∀ k kind, ¬ Construct lang source j k kind) →
    Lexes lang source (j + 1) found → Lexes lang source j found

theorem not_construct_iff : (∀ k kind, ¬ Construct lang source j k kind) ↔
    recognise (commentOrString lang) source j = none := by
  simp only [construct_iff, Option.eq_none_iff_forall_ne_some]
  exact ⟨fun h l hl => h _ _ ⟨l, hl, rfl, rfl⟩, fun h _ _ ⟨l, hl, _⟩ => h l hl⟩

/-- Only one construct begins at a place. -/
theorem Construct.unique {k' : Nat} {kind' : Kind} (h : Construct lang source j k kind)
    (h' : Construct lang source j k' kind') : k = k' ∧ kind = kind' := by
  obtain ⟨l, hl, rfl, rfl⟩ := construct_iff.mp h
  obtain ⟨l', hl', rfl, rfl⟩ := construct_iff.mp h'
  obtain rfl : l = l' := Option.some.inj (hl.symm.trans hl')
  exact ⟨rfl, rfl⟩

/-- A construct has a character at least. -/
theorem Construct.lt (h : Construct lang source j k kind) : j < k := by
  cases h with
  | comment h =>
    cases lang with
    | python => exact h.elim (·.lt (by decide)) (·.lt (by decide))
    | java => exact h.elim (·.lt (by decide)) (·.lt (by decide))
    | html => exact BlockComment.lt h (by decide)
  | literal _ _ h =>
    obtain ⟨opening, quote, body, -, -, rfl⟩ := h
    rw [List.length_append]
    exact Nat.lt_add_of_pos_right (Nat.succ_pos _)

/-- A construct lies in the source. -/
theorem Construct.le (h : Construct lang source j k kind) (hj : j ≤ source.length) :
    k ≤ source.length := by
  obtain ⟨l, hl, -, rfl⟩ := construct_iff.mp h
  exact (reads_commentOrString lang).length_le hl hj

/-- **The lexer has one answer.** -/
theorem Lexes.unique {found' : List Span} (h : Lexes lang source j found)
    (h' : Lexes lang source j found') : found = found' := by
  have hend {k kind} (h : Construct lang source source.length k kind) : False := by
    exact absurd (h.le (Nat.le_refl _)) (Nat.not_le.mpr h.lt)
  induction h generalizing found' with
  | stop =>
    cases h' with
    | stop => rfl
    | accept hconstruct => exact (hend hconstruct).elim
    | advance hlt => exact absurd hlt (Nat.lt_irrefl _)
  | accept hconstruct _ ih =>
    cases h' with
    | stop => exact (hend hconstruct).elim
    | accept hconstruct' hrest =>
      obtain ⟨rfl, rfl⟩ := hconstruct.unique hconstruct'
      rw [ih hrest]
    | advance _ hnone => exact absurd hconstruct (hnone _ _)
  | advance hlt hnone _ ih =>
    cases h' with
    | stop => exact absurd hlt (Nat.lt_irrefl _)
    | accept hconstruct => exact absurd hconstruct (hnone _ _)
    | advance _ _ hrest => exact ih hrest

/-- Where no construct begins, the lexer goes on. -/
theorem Lexes.advance_to (h : Lexes lang source k found) (hjk : j ≤ k) (hk : k ≤ source.length)
    (hnone : ∀ i, j ≤ i → i < k → recognise (commentOrString lang) source i = none) :
    Lexes lang source j found := by
  induction hjk using Nat.decreasingInduction with
  | self => exact h
  | of_succ j hj ih =>
    exact .advance (Nat.lt_of_lt_of_le hj hk) (not_construct_iff.mpr (hnone j (Nat.le_refl j) hj))
      (ih fun i hi => hnone i (Nat.le_of_succ_le hi))

/-! ## The first sweep -/

/-- A span behind all others is claimed at the end. -/
theorem claim?_behind {new : Span} (hnew : new.start < new.stop)
    (hspans : ∀ s ∈ spans, s.stop ≤ new.start) : claim? spans new = some (spans ++ [new]) := by
  have hbefore : endingBefore new.start spans = spans :=
    List.takeWhile_eq_self_iff.mpr fun s hs => decide_eq_true (hspans s hs)
  have hafter : endingAfter new.start spans = [] :=
    List.dropWhile_eq_nil_iff.mpr fun s hs => decide_eq_true (hspans s hs)
  refine claim?_eq_some_iff.mpr ⟨⟨hnew, ?_⟩, ?_⟩
  · rw [hafter]
    rfl
  · rw [hbefore, hafter]

theorem construct_of_recognise (hl : recognise (commentOrString lang) source j = some l) :
    Construct lang source j (j + l.body.length) l.kind :=
  construct_iff.mpr ⟨l, hl, rfl, rfl⟩

/-- A construct behind all spans is claimed at the end, and the sweep goes on behind it. -/
theorem offer_construct (hl : recognise (commentOrString lang) source j = some l)
    (hj : j ≤ source.length) (hspans : ∀ s ∈ spans, s.stop ≤ offsetAt source j) :
    offer spans (.ofLexeme (placeAt source j) l) =
      (spans ++ [spanOf source j (j + l.body.length) l.kind],
        offsetAt source (j + l.body.length)) := by
  have hreads : (commentOrString lang).Reads source := reads_commentOrString lang
  have hconstruct := construct_of_recognise hl
  have hclaim : claim? spans (Match.ofLexeme (placeAt source j) l).span =
      some (spans ++ [spanOf source j (j + l.body.length) l.kind]) := by
    rw [hreads.span_eq hl]
    exact claim?_behind (offsetAt_lt hconstruct.lt (hconstruct.le hj)) hspans
  rw [hreads.offer_of_claim hl hclaim, Lexeme.length, (of_commentOrString hl).2.1, List.append_nil]

theorem sweep_of_none {r : Recogniser} (hm : leftmost r (placeAt source k) = none) :
    sweep (leftmost r) spans (placeAt source k) = spans := by
  rw [sweep]
  split
  · rfl
  · next hm' =>
    rw [hm] at hm'
    cases hm'

/-- Behind a match, a sweep goes on from the place that was offered. -/
theorem sweep_of_offer {r : Recogniser} {spans' : List Span} {i : Nat}
    (hm : leftmost r (placeAt source k) = some (.ofLexeme (placeAt source j) l))
    (hoffer : offer spans (.ofLexeme (placeAt source j) l) = (spans', offsetAt source i))
    (hkj : k ≤ j) (hji : j < i) (hi : i ≤ source.length) :
    sweep (leftmost r) spans (placeAt source k) = sweep (leftmost r) spans' (placeAt source i) := by
  have hseek : (placeAt source j).seek (offsetAt source i) = placeAt source i :=
    seek_offsetAt hji.le hi
  have hplace : (Match.ofLexeme (placeAt source j) l).place = placeAt source j := rfl
  conv_lhs => rw [sweep]
  split
  · next hm' =>
    rw [hm] at hm'
    cases hm'
  · next m hm' =>
    obtain rfl := Option.some.inj (hm.symm.trans hm')
    simp only [hoffer, hplace, hseek]
    refine dif_pos ⟨rfl, ?_⟩
    rw [placeAt, placeAt, List.length_drop, List.length_drop]
    omega

/-- **The first sweep** is the lexer: from a place behind all spans on, it adds what the lexer
finds. -/
theorem sweep_lexes (hk : k ≤ source.length) (hspans : ∀ s ∈ spans, s.stop ≤ offsetAt source k) :
    ∃ found, sweep (leftmost (commentOrString lang)) spans (placeAt source k) = spans ++ found ∧
      Lexes lang source k found := by
  induction hn : source.length - k using Nat.strong_induction_on generalizing k spans with
  | _ n ih =>
  subst hn
  cases hm : leftmost (commentOrString lang) (placeAt source k) with
  | none =>
    refine ⟨[], ?_, Lexes.stop.advance_to hk (Nat.le_refl _) ?_⟩
    · rw [sweep_of_none hm, List.append_nil]
    · exact fun i hi hlt => recognise_of_leftmost hk hm i hi (Nat.le_of_lt hlt)
  | some m =>
    obtain ⟨j, l, hkj, hj, hl, rfl, hbefore⟩ := exists_of_leftmost hk hm
    have hconstruct := construct_of_recognise hl
    have hlt := hconstruct.lt
    have hle := hconstruct.le hj
    have hbehind : ∀ s ∈ spans, s.stop ≤ offsetAt source j := fun s hs =>
      Nat.le_trans (hspans s hs) (monotone_offsetAt source hkj)
    have hspans' : ∀ s ∈ spans ++ [spanOf source j (j + l.body.length) l.kind],
        s.stop ≤ offsetAt source (j + l.body.length) := by
      intro s hs
      rcases List.mem_append.mp hs with hs | hs
      · exact Nat.le_trans (hbehind s hs) (monotone_offsetAt source (Nat.le_of_lt hlt))
      · rw [List.mem_singleton.mp hs]
        exact Nat.le_refl _
    obtain ⟨found, hsweep, hfound⟩ :=
      ih (source.length - (j + l.body.length)) (by omega) hle hspans' rfl
    refine ⟨spanOf source j (j + l.body.length) l.kind :: found, ?_,
      (Lexes.accept hconstruct hfound).advance_to hkj hj hbefore⟩
    rw [sweep_of_offer hm (offer_construct hl hj hbehind) hkj hlt hle, hsweep, List.append_assoc,
      List.singleton_append]

/-! ## The other tiers -/

/-- Whether a span is a comment or a string literal. -/
def Span.isConstruct (s : Span) : Bool := s.kind = .comment ∨ s.kind = .string

/-- A claim leaves the spans of every sort but its own. -/
theorem filter_claim?_of_neg {new : Span} {spans' : List Span} {p : Span → Bool}
    (hclaim : claim? spans new = some spans') (hnew : p new = false) :
    spans'.filter p = spans.filter p := by
  obtain ⟨-, rfl⟩ := claim?_eq_some_iff.mp hclaim
  rw [List.filter_append, List.filter_cons_of_neg (by rw [hnew]; exact Bool.false_ne_true),
    ← List.filter_append, endingBefore_append_endingAfter]

/-- What claims no span of some sort leaves those of that sort that are there. -/
theorem filter_sweep {r : Recogniser} {p : Span → Bool} (hr : ∀ j l, recognise r source j = some l →
      p (Match.ofLexeme (placeAt source j) l).span = false) :
    (sweep (leftmost r) spans (.first source)).filter p = spans.filter p := by
  refine sweep_invariant (P := fun spans' => spans'.filter p = spans.filter p) ?_
    (Nat.zero_le _) rfl
  intro before after j l _ hl hclaim hbefore
  exact (filter_claim?_of_neg hclaim (hr j l hl)).trans hbefore

theorem Finds.filter_sweep {r : Recogniser} {P : Word source → Prop} (h : Finds r kind P)
    {p : Span → Bool} (hkind : ∀ start stop, p ⟨start, stop, kind⟩ = false) :
    (sweep (leftmost r) spans (.first source)).filter p = spans.filter p := by
  refine Highlight.filter_sweep fun j l hl => ?_
  obtain ⟨-, -, -, rfl, -⟩ := h.found j l hl
  exact hkind _ _

/-- The words' tiers add words and nothing else. -/
theorem filter_tokenize_eq_wordless {p : Span → Bool} (hp : ∀ start stop kind,
      kind = .builtin ∨ kind = .keyword ∨ kind = .function → p ⟨start, stop, kind⟩ = false) :
    (tokenize lang source).filter p = (wordless lang source).filter p := by
  calc (tokenize lang source).filter p
      = (withKeywords lang source).filter p :=
        finds_call.filter_sweep fun _ _ => hp _ _ _ (.inr (.inr rfl))
    _ = (withBuiltins lang source).filter p :=
        (finds_wordIn _ _).filter_sweep fun _ _ => hp _ _ _ (.inr (.inl rfl))
    _ = (wordless lang source).filter p :=
        (finds_wordIn _ _).filter_sweep fun _ _ => hp _ _ _ (.inl rfl)

/-- The comments and string literals of a source are what the first sweep finds. -/
theorem filter_tokenize (lang : Language) (source : Text) :
    (tokenize lang source).filter Span.isConstruct =
      sweep (leftmost (commentOrString lang)) [] (.first source) := by
  calc (tokenize lang source).filter Span.isConstruct
      = (wordless lang source).filter Span.isConstruct :=
        filter_tokenize_eq_wordless fun _ _ _ hkind => by
          rcases hkind with rfl | rfl | rfl <;> rfl
    _ = (sweep (leftmost (commentOrString lang)) [] (.first source)).filter Span.isConstruct :=
        filter_sweep fun j l hl => by
          have hkind : (Match.ofLexeme (placeAt source j) l).span.kind = .number :=
            (isNumber_of_recognise hl).kind
          rw [Span.isConstruct, hkind]
          rfl
    _ = sweep (leftmost (commentOrString lang)) [] (.first source) := by
        refine List.filter_eq_self.mpr fun s hs => ?_
        rcases (reads_commentOrString lang).exists_of_mem_sweep (Nat.zero_le _) hs with
          hs | ⟨j, l, -, hl, rfl⟩
        · cases hs
        · exact decide_eq_true (of_commentOrString hl).1

/-- The comments and string literals of a source are constructs that stand in it. -/
theorem exists_construct (hs : s ∈ tokenize lang source) (hkind : s.isConstruct = true) :
    ∃ j k, k ≤ source.length ∧ Construct lang source j k s.kind ∧ s = spanOf source j k s.kind := by
  have hmem : s ∈ (tokenize lang source).filter Span.isConstruct :=
    List.mem_filter.mpr ⟨hs, hkind⟩
  have hreads : (commentOrString lang).Reads source := reads_commentOrString lang
  rw [filter_tokenize, first_eq] at hmem
  rcases hreads.exists_of_mem_sweep (Nat.zero_le _) hmem with hnone | ⟨j, l, hj, hl, rfl⟩
  · cases hnone
  · exact ⟨j, _, hreads.length_le hl hj, construct_of_recognise hl, rfl⟩

/-- **Comments and string literals** of a source are those that the lexer finds, in order. -/
theorem lexes_iff (lang : Language) (source : Text) (found : List Span) :
    Lexes lang source 0 found ↔ (tokenize lang source).filter Span.isConstruct = found := by
  obtain ⟨found', hsweep, hfound⟩ : ∃ found',
      sweep (leftmost (commentOrString lang)) [] (placeAt source 0) = [] ++ found' ∧
        Lexes lang source 0 found' := sweep_lexes (Nat.zero_le _) nofun
  have htokens : (tokenize lang source).filter Span.isConstruct = found' := by
    rw [filter_tokenize, first_eq, hsweep, List.nil_append]
  constructor
  · exact fun h => htokens.trans (hfound.unique h)
  · rintro rfl
    exact htokens ▸ hfound

end Workbench.Highlight
