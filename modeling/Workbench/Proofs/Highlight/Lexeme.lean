import Workbench.Proofs.Highlight.Sweep

/-!
# Proofs/Highlight/Lexeme — comments, string literals and numbers

The recognisers of comments, literals and numbers read what is there (`reads_commentOrString`,
`reads_number`).  A number has nothing in it but digits and points, and it neither begins nor ends
inside a word (`Numeric`): so the words that it meets are made of digits.
-/

namespace Workbench.Highlight

variable {source t n : Text} {j : Nat} {l : Lexeme}

/-! ## Comments and string literals -/

/-- A comment is read off the text where it begins. -/
theorem CommentForm.prefix_of_read {form : CommentForm} (h : form.read t = some n) : n <+: t := by
  cases form with
  | line opening =>
    obtain ⟨rest, hrest, rfl⟩ := Option.map_eq_some_iff.mp h
    rw [Text.dropMark?_eq_some.mp hrest, List.prefix_append_right_inj]
    exact List.takeWhile_prefix _
  | block opening closing =>
    obtain ⟨rest, hrest, h⟩ := Option.bind_eq_some_iff.mp h
    obtain ⟨⟨inside, behind⟩, hcut, h⟩ := Option.bind_eq_some_iff.mp h
    obtain rfl : opening ++ inside ++ closing = n := Option.some.inj h
    rw [Text.dropMark?_eq_some.mp hrest, Text.eq_of_cutFirst hcut]
    exact ⟨behind, by simp⟩

theorem prefix_of_literalRest {quote : Char} (h : literalRest quote t = some n) : n <+: t := by
  fun_induction literalRest quote t generalizing n with
  | case1 => cases h
  | case2 => cases h
  | case3 c t hc ih =>
    obtain ⟨m, hm, rfl⟩ := Option.map_eq_some_iff.mp h
    simpa using ih hm
  | case4 =>
    obtain rfl := Option.some.inj h
    simp
  | case5 => cases h
  | case6 c t hc hquote hback ih =>
    obtain ⟨m, hm, rfl⟩ := Option.map_eq_some_iff.mp h
    simpa using ih hm

/-- A string literal is read off the text where it begins, with the letter in front of its quote. -/
theorem prefix_of_literal {before : Option Char} (h : literal before t = some n) : n <+: t := by
  unfold literal at h
  split at h
  · split at h
    · cases h
    · obtain ⟨m, hm, rfl⟩ := Option.map_eq_some_iff.mp h
      simpa using prefix_of_literalRest hm
  · obtain ⟨m, hm, rfl⟩ := Option.map_eq_some_iff.mp h
    simpa using prefix_of_literalRest hm
  · obtain ⟨m, hm, rfl⟩ := Option.map_eq_some_iff.mp h
    simpa using prefix_of_literalRest hm
  · cases h

/-- A comment or a literal, with nothing read behind it. -/
theorem of_commentOrString {lang : Language} {before : Option Char}
    (h : commentOrString lang before t = some l) :
    (l.kind = .comment ∨ l.kind = .string) ∧ l.tail = [] ∧ l.body <+: t := by
  unfold commentOrString at h
  split at h
  · next comment hcomment =>
    obtain ⟨form, -, hread⟩ := List.exists_of_findSome?_eq_some hcomment
    obtain rfl := Option.some.inj h
    exact ⟨.inl rfl, rfl, CommentForm.prefix_of_read hread⟩
  · obtain ⟨s, hs, rfl⟩ := Option.map_eq_some_iff.mp h
    exact ⟨.inr rfl, rfl, prefix_of_literal hs⟩

/-- What is found as a comment or a string is what the source has there. -/
theorem reads_commentOrString (lang : Language) : (commentOrString lang).Reads source := by
  intro j l h
  obtain ⟨-, htail, hbody⟩ := of_commentOrString h
  rwa [htail, List.append_nil]

/-! ## Numbers -/

/-- A place inside a word, with a character of the word on either side. -/
def InsideWord (source : Text) (k : Nat) : Prop :=
  behindWord (source.take k).getLast? ∧ behindWord (source.drop k).head?

/-- A text in front of another is numeric: it is made of digits and points, and holds the end of
each word that it begins. -/
structure Numeric (n behind : Text) : Prop where
  nonempty : n ≠ []
  chars : ∀ c ∈ n, c.isDigit ∨ c = '.'
  ends : behindWord n.getLast? → ¬ behindWord behind.head?

theorem digits_of_takeWhile (t : Text) : ∀ c ∈ t.takeWhile Char.isDigit, c.isDigit ∨ c = '.' :=
  fun c hc => .inl (List.all_eq_true.mp List.all_takeWhile c hc)

/-- A number is read off the text where it begins, in one of its two forms. -/
theorem exists_of_numeral (h : numeral t = some n) : ∃ behind, t = n ++ behind ∧ Numeric n behind := by
  have hsplit : t.takeWhile Char.isDigit ++ t.dropWhile Char.isDigit = t :=
    List.takeWhile_append_dropWhile
  have hwhole := digits_of_takeWhile t
  simp only [numeral] at h
  split at h
  · cases h
  · next hnonempty =>
    split at h
    · next hend =>
      obtain rfl := Option.some.inj h
      exact ⟨[], by rw [← hend, hsplit], hnonempty, hwhole, by simp [behindWord]⟩
    · next c rest hbehind =>
      rw [hbehind] at hsplit
      split at h
      · next hpoint =>
        subst hpoint
        split at h
        · next hplaces =>
          obtain rfl := Option.some.inj h
          refine ⟨rest.dropWhile Char.isDigit, ?_, by simp, ?_, fun _ => hplaces.2⟩
          · rw [List.append_assoc, List.cons_append, List.takeWhile_append_dropWhile, hsplit]
          · intro c hc
            rcases List.mem_append.mp hc with hc | hc
            · exact hwhole c hc
            · exact (List.mem_cons.mp hc).elim .inr (digits_of_takeWhile rest c)
        · split at h
          · obtain rfl := Option.some.inj h
            refine ⟨rest, by rw [List.append_assoc, List.singleton_append, hsplit], by simp, ?_, ?_⟩
            · intro c hc
              rcases List.mem_append.mp hc with hc | hc
              · exact hwhole c hc
              · exact .inr (List.mem_singleton.mp hc)
            · rw [List.getLast?_concat]
              exact fun hpoint => absurd hpoint (by decide)
          · obtain rfl := Option.some.inj h
            refine ⟨_, hsplit.symm, hnonempty, hwhole, fun _ => ?_⟩
            change ¬ behindWord (some '.')
            decide
      · split at h
        · cases h
        · next hword =>
          obtain rfl := Option.some.inj h
          exact ⟨_, hsplit.symm, hnonempty, hwhole, fun _ => hword⟩

/-- A number, with nothing read behind it. -/
structure IsNumber (source : Text) (j : Nat) (l : Lexeme) : Prop where
  kind : l.kind = .number
  tail : l.tail = []
  here : l.body <+: source.drop j
  chars : ∀ c ∈ l.body, c.isDigit ∨ c = '.'
  begins : ¬ InsideWord source j
  ends : ¬ InsideWord source (j + l.body.length)

/-- What is found as a number is one. -/
theorem isNumber_of_recognise (h : recognise number source j = some l) : IsNumber source j l := by
  rw [recognise, number] at h
  split at h
  · cases h
  · next hfresh =>
    obtain ⟨n, hn, rfl⟩ := Option.map_eq_some_iff.mp h
    obtain ⟨behind, hsource, hnumeric⟩ := exists_of_numeral hn
    refine ⟨rfl, rfl, ⟨behind, hsource.symm⟩, hnumeric.chars, fun hinside => hfresh hinside.1, ?_⟩
    rintro ⟨hlast, hnext⟩
    rw [← List.drop_drop, hsource, List.drop_left] at hnext
    rw [List.take_add, hsource, List.take_left, List.getLast?_append_of_ne_nil _ hnumeric.nonempty]
      at hlast
    exact hnumeric.ends hlast hnext

theorem reads_number : Recogniser.Reads number source := by
  intro j l h
  have hnumber := isNumber_of_recognise h
  rw [hnumber.tail, List.append_nil]
  exact hnumber.here

end Workbench.Highlight
