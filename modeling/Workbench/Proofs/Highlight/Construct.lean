import Workbench.Proofs.Highlight.Lexeme
import Workbench.Proofs.Text.Scan

/-!
# Proofs/Highlight/Construct — where comments and string literals stand

Said by places, without any reading: a comment reaches from its mark to the first end of the line,
or through the first closing mark that is not in front of the end of the opening one (`IsComment`);
a string literal is a text of plain and escaped characters between two quotes (`IsLiteral`).  What
is recognised at a place is the comment that begins there, or else the literal (`construct_iff`).
-/

namespace Workbench.Highlight

variable {source mark opening closing t n : Text} {i j k : Nat}

/-! ## Marks -/

/-- A mark stands at a place. -/
def StandsAt (source mark : Text) (k : Nat) : Prop := mark <+: source.drop k

/-- A line ends at a place: with the source, or with a line feed. -/
def LineEndsAt (source : Text) (k : Nat) : Prop := k = source.length ∨ source[k]? = some '\n'

theorem StandsAt.le (h : StandsAt source mark k) (hmark : mark ≠ []) :
    k + mark.length ≤ source.length := by
  have hle := h.length_le
  have hpos := List.length_pos_iff.mpr hmark
  rw [List.length_drop] at hle
  omega

/-- Where a mark stands, there is its first character. -/
theorem StandsAt.head?_drop {c : Char} (h : StandsAt source mark k) (hc : mark.head? = some c) :
    (source.drop k).head? = some c := by
  obtain ⟨rest, hrest⟩ := h
  rw [← hrest, List.head?_append, hc]
  rfl

/-- Of two marks at one place, one begins with the other. -/
theorem StandsAt.prefix_or {mark' : Text} (h : StandsAt source mark k) (h' : StandsAt source mark' k) :
    mark <+: mark' ∨ mark' <+: mark :=
  List.prefix_or_prefix_of_prefix h h'

theorem dropMark?_drop {rest : Text} : Text.dropMark? mark (source.drop k) = some rest ↔
    StandsAt source mark k ∧ source.drop (k + mark.length) = rest := by
  rw [Text.dropMark?_eq_some]
  constructor
  · intro h
    rw [← List.drop_drop, h, List.drop_left]
    exact ⟨⟨rest, h.symm⟩, rfl⟩
  · rintro ⟨⟨rest', hrest'⟩, rfl⟩
    rw [← List.drop_drop, ← hrest', List.drop_left]

theorem setOf_le_eq {P : Nat → Prop} (h : ¬ P k) : {i | k ≤ i ∧ P i} = {i | k + 1 ≤ i ∧ P i} := by
  ext i
  refine and_congr_left fun hi => ⟨fun hle => ?_, Nat.le_of_succ_le⟩
  exact Nat.lt_of_le_of_ne hle fun heq => h (heq ▸ hi)

/-- The first end of a line behind a place. -/
theorem isLeast_lineEndsAt (hk : k ≤ source.length) :
    IsLeast {i | k ≤ i ∧ LineEndsAt source i}
      (k + ((source.drop k).takeWhile (· ≠ '\n')).length) := by
  induction hk using Nat.decreasingInduction with
  | self =>
    rw [List.drop_length]
    exact ⟨⟨Nat.le_refl _, .inl rfl⟩, fun i hi => hi.1⟩
  | of_succ k hk ih =>
    rw [List.drop_eq_getElem_cons hk]
    by_cases hbreak : source[k] = '\n'
    · rw [List.takeWhile_cons_of_neg (by simpa using hbreak)]
      refine ⟨⟨Nat.le_refl _, .inr ?_⟩, fun i hi => hi.1⟩
      rw [List.length_nil, Nat.add_zero, List.getElem?_eq_getElem hk, hbreak]
    · have hends : ¬ LineEndsAt source k := by
        rintro (hend | hend)
        · exact Nat.ne_of_lt hk hend
        · rw [List.getElem?_eq_getElem hk] at hend
          exact hbreak (Option.some.inj hend)
      rw [List.takeWhile_cons_of_pos (by simpa using hbreak), setOf_le_eq hends, List.length_cons,
        ← Nat.add_assoc, Nat.add_right_comm]
      exact ih

/-- The first mark behind a place. -/
theorem cutFirst_iff_isLeast (hmark : mark ≠ []) (hk : k ≤ source.length) :
    (∃ before after, Text.cutFirst mark (source.drop k) = some (before, after) ∧
      k + before.length = i) ↔ IsLeast {i | k ≤ i ∧ StandsAt source mark i} i := by
  induction hk using Nat.decreasingInduction with
  | self =>
    rw [List.drop_length]
    refine ⟨fun ⟨_, _, h, _⟩ => by simp [Text.cutFirst] at h, fun h => ?_⟩
    have hle := StandsAt.le h.1.2 hmark
    have hpos := List.length_pos_iff.mpr hmark
    have hge : source.length ≤ i := h.1.1
    omega
  | of_succ k hk ih =>
    rw [List.drop_eq_getElem_cons hk, Text.cutFirst, ← List.drop_eq_getElem_cons hk]
    split
    · next after hafter =>
      have hleast : IsLeast {i | k ≤ i ∧ StandsAt source mark i} k :=
        ⟨⟨Nat.le_refl _, (dropMark?_drop.mp hafter).1⟩, fun i hi => hi.1⟩
      constructor
      · rintro ⟨before, after', h, rfl⟩
        obtain ⟨rfl, -⟩ : [] = before ∧ after = after' := by simpa using h
        exact hleast
      · intro h
        exact ⟨[], after, rfl, hleast.unique h⟩
    · next hnone =>
      have hstands : ¬ StandsAt source mark k := fun h => by
        rw [dropMark?_drop.mpr ⟨h, rfl⟩] at hnone
        cases hnone
      rw [setOf_le_eq hstands, ← ih]
      constructor
      · rintro ⟨before, after, h, rfl⟩
        obtain ⟨⟨before', after'⟩, hcut, hpair⟩ := Option.map_eq_some_iff.mp h
        obtain ⟨rfl, rfl⟩ := Prod.mk.inj hpair
        exact ⟨before', after', hcut, by rw [List.length_cons]; omega⟩
      · rintro ⟨before, after, hcut, rfl⟩
        exact ⟨source[k] :: before, after, by rw [hcut]; rfl, by rw [List.length_cons]; omega⟩

/-! ## Comments -/

/-- A comment that a mark opens reaches up to the end of its line. -/
def LineComment (source opening : Text) (j k : Nat) : Prop :=
  StandsAt source opening j ∧ IsLeast {i | j + opening.length ≤ i ∧ LineEndsAt source i} k

/-- A comment that a mark opens reaches through the first closing mark behind that one. -/
def BlockComment (source opening closing : Text) (j k : Nat) : Prop :=
  StandsAt source opening j ∧
    ∃ i, IsLeast {i | j + opening.length ≤ i ∧ StandsAt source closing i} i ∧
      i + closing.length = k

theorem LineComment.lt (h : LineComment source opening j k) (hopening : opening ≠ []) : j < k := by
  have hle : j + opening.length ≤ k := h.2.1.1
  have hpos := List.length_pos_iff.mpr hopening
  omega

theorem BlockComment.lt (h : BlockComment source opening closing j k) (hopening : opening ≠ []) :
    j < k := by
  obtain ⟨-, i, hleast, rfl⟩ := h
  have hle : j + opening.length ≤ i := hleast.1.1
  have hpos := List.length_pos_iff.mpr hopening
  omega

/-- Where the comments of a language begin and end. -/
def IsComment (source : Text) (j k : Nat) : Language → Prop
  | .python => LineComment source "#" j k ∨ BlockComment source "\"\"\"" "\"\"\"" j k
  | .java => LineComment source "//" j k ∨ BlockComment source "/*" "*/" j k
  | .html => BlockComment source "<!--" "-->" j k

theorem read_line_iff (hopening : opening ≠ []) :
    (∃ n, (CommentForm.line opening).read (source.drop j) = some n ∧ j + n.length = k) ↔
      LineComment source opening j k := by
  simp only [CommentForm.read, Option.map_eq_some_iff, dropMark?_drop]
  constructor
  · rintro ⟨_, ⟨rest, ⟨hstands, rfl⟩, rfl⟩, rfl⟩
    refine ⟨hstands, ?_⟩
    rw [List.length_append, ← Nat.add_assoc]
    exact isLeast_lineEndsAt (hstands.le hopening)
  · rintro ⟨hstands, hleast⟩
    refine ⟨_, ⟨_, ⟨hstands, rfl⟩, rfl⟩, ?_⟩
    rw [List.length_append, ← Nat.add_assoc]
    exact (isLeast_lineEndsAt (hstands.le hopening)).unique hleast

theorem read_block_iff (hopening : opening ≠ []) (hclosing : closing ≠ []) :
    (∃ n, (CommentForm.block opening closing).read (source.drop j) = some n ∧ j + n.length = k) ↔
      BlockComment source opening closing j k := by
  have hread {n} : (CommentForm.block opening closing).read (source.drop j) = some n ↔
      StandsAt source opening j ∧ ∃ inside behind,
        Text.cutFirst closing (source.drop (j + opening.length)) = some (inside, behind) ∧
        opening ++ inside ++ closing = n := by
    simp [CommentForm.read, Option.bind_eq_some_iff, dropMark?_drop]
  simp only [hread]
  constructor
  · rintro ⟨_, ⟨hstands, inside, behind, hcut, rfl⟩, rfl⟩
    refine ⟨hstands, _, (cutFirst_iff_isLeast hclosing (hstands.le hopening)).mp
      ⟨inside, behind, hcut, rfl⟩, ?_⟩
    simp only [List.length_append, Nat.add_assoc]
  · rintro ⟨hstands, i, hleast, rfl⟩
    obtain ⟨inside, behind, hcut, rfl⟩ :=
      (cutFirst_iff_isLeast hclosing (hstands.le hopening)).mpr hleast
    refine ⟨_, ⟨hstands, inside, behind, hcut, rfl⟩, ?_⟩
    simp only [List.length_append, Nat.add_assoc]

/-- A line comment and a block comment do not stand at one place if neither opening mark begins with
the other, and the one that stands there is read. -/
theorem read_line_or_block_iff (hclosing : closing ≠ []) (h : ¬ opening <+: mark)
    (h' : ¬ mark <+: opening) :
    (∃ n, [CommentForm.line opening, .block mark closing].findSome? (·.read (source.drop j)) = some n ∧
      j + n.length = k) ↔
      LineComment source opening j k ∨ BlockComment source mark closing j k := by
  have hopening : opening ≠ [] := by
    rintro rfl
    exact h List.nil_prefix
  have hmark : mark ≠ [] := by
    rintro rfl
    exact h' List.nil_prefix
  rw [← read_line_iff hopening, ← read_block_iff hmark hclosing, List.findSome?_cons,
    List.findSome?_singleton]
  cases hline : (CommentForm.line opening).read (source.drop j) with
  | none => simp
  | some n =>
    -- The other form reads nothing here, so the order of the two does not matter.
    have hnone : (CommentForm.block mark closing).read (source.drop j) = none := by
      by_contra hsome
      obtain ⟨n', hn'⟩ := Option.ne_none_iff_exists'.mp hsome
      obtain ⟨hstands, -⟩ := (read_line_iff hopening).mp ⟨n, hline, rfl⟩
      obtain ⟨hstands', -⟩ := (read_block_iff hmark hclosing).mp ⟨n', hn', rfl⟩
      exact (hstands.prefix_or hstands').elim h h'
    simp [hnone]

/-- **The comment that is read** at a place is the one that stands there. -/
theorem read_comment_iff (lang : Language) :
    (∃ n, (commentForms lang).findSome? (·.read (source.drop j)) = some n ∧ j + n.length = k) ↔
      IsComment source j k lang := by
  cases lang with
  | python => exact read_line_or_block_iff (by decide) (by decide) (by decide)
  | java => exact read_line_or_block_iff (by decide) (by decide) (by decide)
  | html =>
    rw [IsComment, ← read_block_iff (by decide) (by decide), commentForms]
    simp only [List.findSome?_singleton]

/-! ## String literals -/

/-- The inside of a literal: characters but the quote and the backslash, and escaped characters but
the line feed. -/
inductive Body (quote : Char) : Text → Prop
  | nil : Body quote []
  | plain {c : Char} {t : Text} : c ≠ quote → c ≠ '\\' → Body quote t → Body quote (c :: t)
  | escaped {c : Char} {t : Text} : c ≠ '\n' → Body quote t → Body quote ('\\' :: c :: t)

/-- What opens a string literal behind a character, and the quote that closes it. -/
inductive Opens (before : Option Char) : Text → Char → Prop
  | formatted : (∀ c ∈ before, ¬ isWord c) → Opens before "f\"" '"'
  | double : Opens before "\"" '"'
  | single : Opens before "'" '\''

/-- A text is a string literal behind a character. -/
def IsLiteral (before : Option Char) (n : Text) : Prop :=
  ∃ opening quote body, Opens before opening quote ∧ Body quote body ∧ opening ++ body ++ [quote] = n

/-- The rest of a literal is read up to the quote that closes it. -/
theorem literalRest_eq_some_iff {quote : Char} (hquote : quote ≠ '\\') :
    literalRest quote t = some n ↔ ∃ body, Body quote body ∧ body ++ [quote] = n ∧ n <+: t := by
  constructor
  · intro h
    suffices hbody : ∃ body, Body quote body ∧ body ++ [quote] = n by
      obtain ⟨body, hbody, rfl⟩ := hbody
      exact ⟨body, hbody, rfl, prefix_of_literalRest h⟩
    fun_induction literalRest quote t generalizing n with
    | case1 => cases h
    | case2 => cases h
    | case3 c t hc ih =>
      obtain ⟨m, hm, rfl⟩ := Option.map_eq_some_iff.mp h
      obtain ⟨body, hbody, rfl⟩ := ih hm
      exact ⟨_, .escaped hc hbody, rfl⟩
    | case4 =>
      obtain rfl := Option.some.inj h
      exact ⟨[], .nil, rfl⟩
    | case5 => cases h
    | case6 c t hc hne hback ih =>
      obtain ⟨m, hm, rfl⟩ := Option.map_eq_some_iff.mp h
      obtain ⟨body, hbody, rfl⟩ := ih hm
      exact ⟨_, .plain hne hback hbody, rfl⟩
  · rintro ⟨body, hbody, rfl, behind, rfl⟩
    induction hbody with
    | nil => simp [literalRest, hquote]
    | @plain c body hc hback _ ih =>
      rw [List.cons_append, List.cons_append, literalRest, if_neg hc, if_neg hback, ih]
      · rfl
      · rintro c' t' rfl
        exact absurd rfl hback
    | @escaped c body hc _ ih =>
      rw [List.cons_append, List.cons_append, List.cons_append, List.cons_append, literalRest,
        if_neg hc, ih]
      rfl

theorem behindWord_eq_false_iff {before : Option Char} :
    behindWord before = false ↔ ∀ c ∈ before, ¬ isWord c := by
  cases before <;> simp [behindWord]

variable {before : Option Char} {quote : Char}

theorem Opens.ne_backslash (h : Opens before opening quote) : quote ≠ '\\' := by
  cases h <;> decide

/-- Behind what opens a literal, the rest of one is read. -/
theorem Opens.literal_append (h : Opens before opening quote) (t : Text) :
    literal before (opening ++ t) = (literalRest quote t).map (opening ++ ·) := by
  cases h with
  | formatted hfresh =>
    show literal before ('f' :: '"' :: t) = _
    rw [literal, behindWord_eq_false_iff.mpr hfresh]
    rfl
  | double => rfl
  | single => rfl

/-- Where a literal is read, something opens it. -/
theorem exists_opens (h : literal before t = some n) :
    ∃ opening quote rest, Opens before opening quote ∧ opening ++ rest = t := by
  unfold literal at h
  split at h
  · next rest =>
    split at h
    · cases h
    · next hfresh =>
      exact ⟨_, _, rest, .formatted (behindWord_eq_false_iff.mp (eq_false_of_ne_true hfresh)), rfl⟩
  · next rest => exact ⟨_, _, rest, .double, rfl⟩
  · next rest => exact ⟨_, _, rest, .single, rfl⟩
  · cases h

/-- **The literal that is read** is the one that stands there. -/
theorem literal_eq_some_iff : literal before t = some n ↔ IsLiteral before n ∧ n <+: t := by
  constructor
  · intro h
    refine ⟨?_, prefix_of_literal h⟩
    obtain ⟨opening, quote, rest, hopens, rfl⟩ := exists_opens h
    rw [hopens.literal_append, Option.map_eq_some_iff] at h
    obtain ⟨m, hm, rfl⟩ := h
    obtain ⟨body, hbody, rfl, -⟩ := (literalRest_eq_some_iff hopens.ne_backslash).mp hm
    exact ⟨opening, quote, body, hopens, hbody, List.append_assoc _ _ _⟩
  · rintro ⟨⟨opening, quote, body, hopens, hbody, rfl⟩, behind, rfl⟩
    have hrest := (literalRest_eq_some_iff hopens.ne_backslash).mpr
      ⟨body, hbody, rfl, List.prefix_append _ behind⟩
    rw [List.append_assoc opening, List.append_assoc opening, hopens.literal_append, hrest]
    rfl

/-! ## What is recognised -/

/-- What begins at a place and where it ends: a comment, or else a string literal. -/
inductive Construct (lang : Language) (source : Text) (j : Nat) : Nat → Kind → Prop
  | comment {k : Nat} : IsComment source j k lang → Construct lang source j k .comment
  | literal {n : Text} : (∀ k, ¬ IsComment source j k lang) → StandsAt source n j →
    IsLiteral (source.take j).getLast? n → Construct lang source j (j + n.length) .string

/-- **What is recognised** at a place is the construct that begins there. -/
theorem construct_iff {lang : Language} {kind : Kind} : Construct lang source j k kind ↔
    ∃ l, recognise (commentOrString lang) source j = some l ∧ l.kind = kind ∧
      j + l.body.length = k := by
  have hnone : (∀ k, ¬ IsComment source j k lang) ↔
      (commentForms lang).findSome? (·.read (source.drop j)) = none := by
    simp only [← read_comment_iff, not_exists, not_and, Option.eq_none_iff_forall_ne_some]
    exact ⟨fun h n hn => h _ n hn rfl, fun h _ n hn _ => h n hn⟩
  constructor
  · rintro (hcomment | ⟨hno, hstands, hliteral⟩)
    · obtain ⟨n, hn, rfl⟩ := (read_comment_iff lang).mpr hcomment
      refine ⟨⟨.comment, n, []⟩, ?_, rfl, rfl⟩
      rw [recognise, commentOrString, hn]
    · refine ⟨⟨.string, _, []⟩, ?_, rfl, rfl⟩
      rw [recognise, commentOrString, hnone.mp hno, literal_eq_some_iff.mpr ⟨hliteral, hstands⟩]
      rfl
  · rintro ⟨l, hl, rfl, rfl⟩
    rw [recognise, commentOrString] at hl
    split at hl
    · next n hn =>
      obtain rfl := Option.some.inj hl
      exact .comment ((read_comment_iff lang).mp ⟨n, hn, rfl⟩)
    · next hread =>
      obtain ⟨n, hn, rfl⟩ := Option.map_eq_some_iff.mp hl
      obtain ⟨hliteral, hstands⟩ := literal_eq_some_iff.mp hn
      exact .literal (hnone.mpr hread) hstands hliteral

end Workbench.Highlight
