import Workbench.Proofs.Highlight.Extent
import Workbench.Proofs.Highlight.Lexing

/-!
# Proofs/Highlight/Escape — one literal from end to end of a source

A source is one span from end to end exactly if one construct is (`tokenize_eq_whole_iff`).  In the
inside of a literal each backslash is paired with the character behind it, and quotes stand in pairs
only (`Paired`): such a text is read up to the quote that closes it exactly if no pair has a line feed
in it (`Paired.body_iff`).  So that decides whether a literal that is all of a source is one span
(`whole_literal_iff`).
-/

namespace Workbench.Highlight

variable {lang : Language} {source opening body : Text} {quote : Char} {escaped : List Char}
  {kind : Kind} {j k : Nat}

/-! ## One construct from end to end -/

theorem spanOf_whole (source : Text) (kind : Kind) :
    spanOf source 0 source.length kind = ⟨0, Text.bytes source, kind⟩ := by
  rw [spanOf, offsetAt_length]
  rfl

/-- A span from end to end leaves room for no other. -/
theorem eq_whole_of_mem {s : Span} (hwhole : ⟨0, Text.bytes source, kind⟩ ∈ tokenize lang source)
    (hs : s ∈ tokenize lang source) : s = ⟨0, Text.bytes source, kind⟩ := by
  by_contra hne
  obtain ⟨hlt, hle⟩ := bounds_of_mem_tokenize hs
  rcases (laid_tokenize lang source).apart hs hwhole hne with hbefore | hbehind
  · exact Nat.not_lt_zero _ (hlt.trans_le hbefore)
  · exact absurd (hlt.trans_le hle) (Nat.not_lt.mpr hbehind)

/-- **A source is one comment or string literal** exactly if one construct reaches from end to end. -/
theorem tokenize_eq_whole_iff (hkind : kind = .comment ∨ kind = .string) :
    tokenize lang source = [⟨0, Text.bytes source, kind⟩] ↔
      Construct lang source 0 source.length kind := by
  have hsort {s : Span} (hs : s = ⟨0, Text.bytes source, kind⟩) : s.isConstruct = true := by
    rw [hs]
    exact decide_eq_true hkind
  constructor
  · intro htokens
    have hwhole : ⟨0, Text.bytes source, kind⟩ ∈ tokenize lang source :=
      htokens ▸ List.mem_singleton_self _
    obtain ⟨j, k, hk, hconstruct, heq⟩ := exists_construct hwhole (hsort rfl)
    obtain ⟨hstart, hstop, -⟩ := Span.mk.inj ((spanOf_whole source kind).trans heq)
    obtain rfl : 0 = j :=
      (offsetAt_inj (Nat.zero_le _) (hconstruct.lt.le.trans hk)).mp hstart
    obtain rfl : source.length = k := (offsetAt_inj (Nat.le_refl _) hk).mp hstop
    exact hconstruct
  · intro hconstruct
    have hfound := (lexes_iff lang source _).mp (.accept hconstruct .stop)
    rw [spanOf_whole] at hfound
    have hwhole : ⟨0, Text.bytes source, kind⟩ ∈ tokenize lang source :=
      List.mem_of_mem_filter (hfound ▸ List.mem_singleton_self _)
    calc tokenize lang source
        = (tokenize lang source).filter Span.isConstruct :=
          (List.filter_eq_self.mpr fun s hs => hsort (eq_whole_of_mem hwhole hs)).symm
      _ = [⟨0, Text.bytes source, kind⟩] := hfound

/-! ## One literal from end to end -/

/-- A literal is all of a source where no comment begins. -/
theorem construct_string_iff (hno : ∀ k, ¬ IsComment source 0 k lang) :
    Construct lang source 0 source.length .string ↔ IsLiteral none source := by
  constructor
  · intro h
    generalize hk : source.length = k at h
    cases h with
    | @literal n _ hstands hliteral =>
      obtain rfl : n = source := hstands.eq_of_length (by rw [List.drop_zero, hk, Nat.zero_add])
      exact hliteral
  · intro h
    have hliteral : Construct lang source 0 (0 + source.length) .string :=
      .literal hno List.prefix_rfl h
    rwa [Nat.zero_add] at hliteral

/-- What stands between what opens a literal and the quote is its inside. -/
theorem Opens.isLiteral_iff {before : Option Char} (hopens : Opens before opening quote) :
    IsLiteral before (opening ++ body ++ [quote]) ↔ Body quote body := by
  refine ⟨fun h => ?_, fun h => ⟨opening, quote, body, hopens, h, rfl⟩⟩
  have hread := literal_eq_some_iff.mpr ⟨h, List.prefix_rfl⟩
  rw [List.append_assoc, hopens.literal_append, Option.map_eq_some_iff] at hread
  obtain ⟨n, hn, heq⟩ := hread
  obtain rfl := List.append_cancel_left heq
  obtain ⟨body', hbody', heq', -⟩ := (literalRest_eq_some_iff hopens.ne_backslash).mp hn
  exact List.append_cancel_right heq' ▸ hbody'

/-! ## Escapes -/

/-- Each backslash of a text is paired with the character behind it, and the quote stands in pairs
only: the characters that are paired with a backslash, in order. -/
inductive Paired (quote : Char) : Text → List Char → Prop
  | nil : Paired quote [] []
  | plain {c : Char} {t : Text} {escaped : List Char} : c ≠ quote → c ≠ '\\' →
    Paired quote t escaped → Paired quote (c :: t) escaped
  | pair {c : Char} {t : Text} {escaped : List Char} : Paired quote t escaped →
    Paired quote ('\\' :: c :: t) (c :: escaped)

namespace Paired

/-- **Pairs are read** unless one has a line feed in it. -/
theorem body_iff (h : Paired quote body escaped) : Body quote body ↔ '\n' ∉ escaped := by
  induction h with
  | nil => exact iff_of_true .nil List.not_mem_nil
  | plain hquote hback _ ih =>
    rw [← ih]
    constructor
    · rintro (_ | ⟨-, -, h⟩ | _)
      · exact h
      · exact absurd rfl hback
    · exact .plain hquote hback
  | pair _ ih =>
    rw [List.mem_cons, not_or, ← ih]
    constructor
    · rintro (_ | ⟨-, hback, -⟩ | ⟨hbreak, h⟩)
      · exact absurd rfl hback
      · exact ⟨hbreak.symm, h⟩
    · rintro ⟨hbreak, h⟩
      exact .escaped (Ne.symm hbreak) h

/-- No comment begins where a literal is opened: behind a quote, there are not two more. -/
theorem not_isComment (h : Paired quote body escaped) (hopens : Opens none opening quote) :
    ¬ IsComment (opening ++ body ++ [quote]) 0 k lang := by
  have hother {mark : Text} {c : Char} (hc : mark.head? = some c) (hne : c ∉ ['f', '"', '\'']) :
      ¬ StandsAt (opening ++ body ++ [quote]) mark 0 := by
    intro hstands
    obtain rfl | rfl | rfl : 'f' = c ∨ '"' = c ∨ '\'' = c := by
      have hhead := hstands.head?_drop hc
      cases hopens with
      | formatted => exact .inl (Option.some.inj hhead)
      | double => exact .inr (.inl (Option.some.inj hhead))
      | single => exact .inr (.inr (Option.some.inj hhead))
    all_goals exact hne (by decide)
  cases lang with
  | java => rintro (hcomment | hcomment) <;> exact hother rfl (by decide) hcomment.1
  | html => exact fun hcomment => hother rfl (by decide) hcomment.1
  | python =>
    rintro (hcomment | ⟨⟨behind, hbehind⟩, -⟩)
    · exact hother rfl (by decide) hcomment.1
    · cases hopens with
      | formatted => cases hbehind
      | single => cases hbehind
      | double =>
        cases h with
        | nil => cases hbehind
        | plain hc => exact hc (List.cons_eq_cons.mp (List.cons_eq_cons.mp hbehind).2).1.symm
        | pair => cases hbehind

end Paired

/-- **A literal is one span** from end to end of a source, whatever characters its backslashes are
paired with, exactly if none of them is a line feed. -/
theorem whole_literal_iff (lang : Language) (hopens : Opens none opening quote)
    (hbody : Paired quote body escaped) :
    tokenize lang (opening ++ body ++ [quote]) =
        [⟨0, Text.bytes (opening ++ body ++ [quote]), .string⟩] ↔ '\n' ∉ escaped := by
  rw [tokenize_eq_whole_iff (.inr rfl), construct_string_iff fun _ => hbody.not_isComment hopens,
    hopens.isLiteral_iff, hbody.body_iff]

/-- A formatted literal in which a quote and a backslash are escaped, and a line feed stands for
itself, is one span. -/
theorem whole_literal_escapes :
    let body : Text := "\\\"é\\\\\n\\n"
    Paired '"' body ['"', '\\', 'n'] ∧
      tokenize .python ("f\"" ++ body ++ "\"") = [⟨0, 12, .string⟩] := by
  intro body
  have hbody : Paired '"' body ['"', '\\', 'n'] :=
    .pair (.plain (by decide) (by decide) (.pair (.plain (by decide) (by decide) (.pair .nil))))
  exact ⟨hbody, (whole_literal_iff .python (.formatted nofun) hbody).mpr (by decide)⟩

/-- Behind a backslash, a line feed keeps a literal from being read: nothing of it is a span. -/
theorem whole_literal_escaped_break :
    let body : Text := "a\\\nb"
    Opens none "\"" '"' ∧ Paired '"' body ['\n'] ∧ tokenize .python ("\"" ++ body ++ "\"") = [] := by
  intro body
  have hbody : Paired '"' body ['\n'] :=
    .plain (by decide) (by decide) (.pair (.plain (by decide) (by decide) .nil))
  exact ⟨.double, hbody, by cbv⟩

end Workbench.Highlight
