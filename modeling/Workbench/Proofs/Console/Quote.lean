import Workbench.Console.Basic
import Workbench.Proofs.Text.Pieces
import Workbench.Proofs.Wire.Header

/-!
# Proofs/Console/Quote — words that are read as they were meant

A word may be written plainly, if nothing in it has a meaning of its own, or between single quotes,
where nothing has but the quote.  Either way it is read back wherever a word may begin (`Writes`),
so a line of written words gives these words, whatever they hold (`words?_joined`), and what they
ask for is done before the next line is read (`converse_line`).
-/

namespace Workbench.Console

variable {t : Text}

/-! ## Writing words -/

/-- A character between single quotes.  A quote closes them, stands behind a backslash, and opens
them again. -/
def quotedChar (c : Char) : Text := if c = '\'' then "'\\''" else [c]

/-- A text between single quotes. -/
def quoted (t : Text) : Text := '\'' :: t.flatMap quotedChar ++ ['\'']

/-- The characters that stand for themselves anywhere in a word. -/
def isPlain (c : Char) : Bool := !Text.isBlank c && c ∉ ['#', '\'', '"', '\\']

/-- A way to write a word on a line: from where a word may begin, the word is read, and may go on
behind it. -/
structure Writes (written word : Text) : Prop where
  reads : ∀ rest, wordsFrom (.bare none) (written ++ rest) =
    wordsFrom (.bare (some word.reverse)) rest
  tight : Text.Tight written
  noFeed : '\n' ∉ written

/-- A quote begins a quoted part, and with it a word if none has begun. -/
theorem wordsFrom_quote (word : Option Text) (rest : Text) :
    wordsFrom (.bare word) ('\'' :: rest) = wordsFrom (.single (word.getD [])) rest := by
  cases rest <;> simp [wordsFrom, endsWord]

/-- Between single quotes everything is read as it was meant. -/
theorem wordsFrom_single (word t rest : Text) :
    wordsFrom (.single word) (t.flatMap quotedChar ++ '\'' :: rest) =
      wordsFrom (.bare (some (t.reverse ++ word))) rest := by
  induction t generalizing word with
  | nil => rw [List.flatMap_nil, List.nil_append, wordsFrom, if_pos rfl]; rfl
  | cons c t ih =>
    rw [List.flatMap_cons, List.append_assoc, List.reverse_cons, List.append_assoc,
      List.singleton_append, ← ih (c :: word), quotedChar]
    split
    · next hc =>
      subst hc
      -- The quotes are closed, one is escaped behind them, and the third opens them again.
      have hescaped (rest : Text) : wordsFrom (.bare (some word)) ('\\' :: '\'' :: rest) =
          wordsFrom (.bare (some ('\'' :: word))) rest := by simp [wordsFrom, endsWord]
      have hcloses (rest : Text) : wordsFrom (.single word) ('\'' :: rest) =
          wordsFrom (.bare (some word)) rest := by rw [wordsFrom, if_pos rfl]
      exact (hcloses _).trans ((hescaped _).trans (wordsFrom_quote _ _))
    · next hc => rw [List.singleton_append, wordsFrom, if_neg hc]

theorem feed_notMem_quoted (ht : '\n' ∉ t) : '\n' ∉ quoted t := by
  have hescaped : '\n' ∉ t.flatMap quotedChar := by
    intro hmem
    obtain ⟨c, hc, hfeed⟩ := List.mem_flatMap.mp hmem
    rw [quotedChar] at hfeed
    split at hfeed
    · exact absurd hfeed (by decide)
    · exact ht (List.mem_singleton.mp hfeed ▸ hc)
  simp [quoted, hescaped]

/-- Any text of one line can be written between single quotes. -/
theorem Writes.quoted (ht : '\n' ∉ t) : Writes (quoted t) t where
  reads rest := by
    have hsplit : Console.quoted t ++ rest = '\'' :: (t.flatMap quotedChar ++ '\'' :: rest) := by
      simp [Console.quoted]
    rw [hsplit, wordsFrom_quote, Option.getD_none, wordsFrom_single, List.append_nil]
  tight := .of_ends (by decide) (by decide) _
  noFeed := feed_notMem_quoted ht

/-- A plain character goes to the word, whether or not it begins it. -/
theorem wordsFrom_plain {c : Char} (hc : isPlain c = true) (word : Option Text) (rest : Text) :
    wordsFrom (.bare word) (c :: rest) = wordsFrom (.bare (some (c :: word.getD []))) rest := by
  obtain ⟨hblank, hspecial⟩ : Text.isBlank c = false ∧ c ∉ ['#', '\'', '"', '\\'] := by
    simpa [isPlain] using hc
  have hends : endsWord c = false := by
    by_contra hends
    simp only [endsWord, Bool.not_eq_false, Bool.or_eq_true, decide_eq_true_eq] at hends
    rcases hends with (rfl | rfl) | rfl <;> exact absurd hblank (by decide)
  simp only [List.mem_cons, List.not_mem_nil, or_false, not_or] at hspecial
  obtain ⟨hcomment, hsingle, hdouble, hslash⟩ := hspecial
  cases rest <;> simp [wordsFrom, hends, hcomment, hsingle, hdouble, hslash]

/-- A text of plain characters is written as it is. -/
theorem Writes.plain (ht : t ≠ []) (h : ∀ c ∈ t, isPlain c = true) : Writes t t where
  reads rest := by
    have hgoesOn {t : Text} (h : ∀ c ∈ t, isPlain c = true) (word : Text) :
        wordsFrom (.bare (some word)) (t ++ rest) =
          wordsFrom (.bare (some (t.reverse ++ word))) rest := by
      induction t generalizing word with
      | nil => rfl
      | cons c t ih =>
        obtain ⟨hc, ht⟩ := List.forall_mem_cons.mp h
        rw [List.cons_append, wordsFrom_plain hc, ih ht, List.reverse_cons, List.append_assoc]
        rfl
    obtain ⟨c, t, rfl⟩ := List.exists_cons_of_ne_nil ht
    obtain ⟨hc, ht⟩ := List.forall_mem_cons.mp h
    rw [List.cons_append, wordsFrom_plain hc, hgoesOn ht, List.reverse_cons]
    rfl
  tight := .of_forall ht fun c hc => by
    have := h c hc
    simp_all [isPlain]
  noFeed hmem := absurd (h _ hmem) (by decide)

/-- A number is written in digits, which are plain. -/
theorem Writes.ofNat (n : Nat) : Writes (Text.ofNat n) (Text.ofNat n) := by
  refine .plain Nat.toDigits_ne_nil fun c hc => ?_
  have hdigit : c.isDigit := Text.isDigit_of_mem_ofNat hc
  have hspecial : c ∉ ['#', '\'', '"', '\\'] := by
    intro hmem
    simp only [List.mem_cons, List.not_mem_nil, or_false] at hmem
    rcases hmem with rfl | rfl | rfl | rfl <;> exact absurd hdigit (by decide)
  simp [isPlain, Text.isBlank_of_isDigit hdigit, hspecial]

/-! ## Lines of words -/

/-- A space ends a word. -/
theorem wordsFrom_space (word rest : Text) :
    wordsFrom (.bare (some word)) (' ' :: rest) =
      (wordsFrom (.bare none) rest).map (word.reverse :: ·) := by
  cases rest <;> simp [wordsFrom, endsWord]

variable {ways words : List Text}

/-- **Words are read as they were written**, in any number and whatever they hold. -/
theorem words?_joined (h : List.Forall₂ Writes ways words) :
    words? (Text.joined " " ways) = some words := by
  induction h with
  | nil => rfl
  | @cons way word ways words hway hways ih =>
    rw [words?] at ih ⊢
    by_cases hlast : ways = []
    · subst hlast
      obtain rfl := List.forall₂_nil_left_iff.mp hways
      have hread := hway.reads []
      rw [List.append_nil] at hread
      rw [Text.joined, hread, wordsFrom]
      simp
    · have hspace : way ++ " ".toList ++ Text.joined " " ways =
          way ++ ' ' :: Text.joined " " ways := List.append_assoc ..
      rw [Text.joined_cons _ _ hlast, hspace, hway.reads, wordsFrom_space, ih, List.reverse_reverse]
      rfl

/-- Written words make a line of their own, with nothing to trim. -/
theorem joined_line (h : List.Forall₂ Writes ways words) (hways : ways ≠ []) :
    (Text.joined " " ways).Tight ∧ '\n' ∉ Text.joined " " ways := by
  induction h with
  | nil => exact absurd rfl hways
  | @cons way word ways words hway hrest ih =>
    by_cases hlast : ways = []
    · subst hlast
      exact ⟨hway.tight, hway.noFeed⟩
    · obtain ⟨htight, hfeed⟩ := ih hlast
      rw [Text.joined_cons _ _ hlast]
      refine ⟨hway.tight.append _ htight, ?_⟩
      simp only [List.mem_append, not_or]
      exact ⟨⟨hway.noFeed, by decide⟩, hfeed⟩

/-- A line of written words asks for what the words ask for. -/
theorem readLine_joined (h : List.Forall₂ Writes ways words) {instruction : Instruction}
    (hwords : Instruction.ofWords? words = some instruction) :
    readLine (line (Text.joined " " ways)) = .ok (some instruction) := by
  have hways : ways ≠ [] := by
    rintro rfl
    obtain rfl := List.forall₂_nil_left_iff.mp h
    cases hwords
  have htrim : Text.trim (line (Text.joined " " ways)) = Text.joined " " ways := by
    rw [line, Text.trim_append_of_blank _ (List.forall_mem_singleton.mpr rfl),
      (joined_line h hways).1.trim_eq]
  rw [readLine, htrim, words?_joined h]
  split
  · next hnone => cases hnone
  · next hempty =>
    obtain rfl := Option.some.inj hempty
    cases hwords
  · next hsome =>
    obtain rfl := Option.some.inj hsome
    rw [hwords]

/-! ## A line is answered -/

/-- A line is read, and answered before the next one. -/
theorem converse_line (ht : '\n' ∉ t) (files : Files) (s : Session) (rest : Bytes) :
    converse files s (Text.encode (line t) ++ rest) =
      let r := respond files s (line t)
      if r.stays then
        let d := converse files r.session rest
        ⟨r.out ++ d.out, prompt s ++ r.err ++ d.err, d.session, d.fault⟩
      else ⟨r.out, prompt s ++ r.err, r.session, none⟩ := by
  obtain ⟨b, input, hinput⟩ : ∃ b input, Text.encode (line t) ++ rest = b :: input :=
    List.exists_cons_of_ne_nil fun h => by
      have := congrArg (10 ∈ ·) h
      simp [Text.feed_mem_encode, line] at this
  have htake : takeLine (Text.encode (line t) ++ rest) = (Text.encode (line t), rest) :=
    takeLine_encode ht 0 rest
  rw [hinput, converse, ← hinput, htake, Text.decode_encode]

end Workbench.Console
