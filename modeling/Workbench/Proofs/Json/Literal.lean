import Workbench.Json.Printer
import Workbench.Json.Reader
import Workbench.Proofs.Text.Scan

/-!
# Proofs/Json/Literal — strings and numbers are read back

A string is read back character by character, whatever it holds (`readString_flatMap`).  A number
within 64 bits is read back if what stands behind it does not make it longer
(`Number.Exact.read_print`), and no natural number that is read is larger
(`Number.natural_of_read`).
-/

namespace Workbench.Json

variable {c e : Char} {t rest : Text} {n : Nat}

/-! ## Strings -/

/-- A quote ends a string. -/
alias readString_quote := readString.eq_2

/-- Most escapes are a backslash and a letter. -/
theorem readString_simple (he : e ≠ 'u') (h : simpleEscape? e = some c) :
    readString ('\\' :: e :: t) = (readString t).map (prepend c) := by
  rw [readString, h]
  · cases readString t <;> rfl
  · simp [he]

/-- A character may be escaped by its code point. -/
theorem readString_unit {a b d : Char} (h : Text.hexValue? [a, b, d, e] = some c.toNat) :
    readString ('\\' :: 'u' :: a :: b :: d :: e :: t) = (readString t).map (prepend c) := by
  have hvalid : c.toNat.isValidChar := c.valid
  rw [readString, h, Option.bind_eq_bind, Option.bind_some, if_pos hvalid, Char.ofNat_toNat]
  cases readString t <;> rfl

/-- All other characters stand for themselves. -/
theorem readString_plain (hquote : c ≠ '"') (hslash : c ≠ '\\') (h : 0x20 ≤ c.toNat) :
    readString (c :: t) = (readString t).map (prepend c) := by
  have hplain : ¬ (c.toNat < 0x20 ∨ c = '\\') := by
    rintro (hlt | heq)
    · exact absurd h (Nat.not_le.mpr hlt)
    · exact hslash heq
  rw [readString, if_neg hplain]
  · cases readString t <;> rfl
  · exact hquote
  · exact fun _ _ _ _ _ heq _ => hslash heq
  · exact fun _ _ heq _ => hslash heq

/-- The digit of a number below sixteen is read back. -/
theorem hexValue?_low : ∀ n < 0x10,
    Text.hex n = [n.digitChar] ∧ Text.hexValue? ['0', '0', '0', n.digitChar] = some n := by decide

/-- The two digits of another number below thirty-two are read back. -/
theorem hexValue?_high : ∀ n < 0x20, 0x10 ≤ n → Text.hex n = ['1', (n - 0x10).digitChar] ∧
    Text.hexValue? ['0', '0', '1', (n - 0x10).digitChar] = some n := by decide

/-- **A character is read back** as it is written in a string. -/
theorem readString_escapedChar (c : Char) (t : Text) :
    readString (escapedChar c ++ t) = (readString t).map (prepend c) := by
  unfold escapedChar
  split_ifs with hquote hslash hfeed hreturn htab hback hform hlow hcontrol
  · subst hquote
    exact readString_simple (e := '"') (by decide) rfl
  · subst hslash
    exact readString_simple (e := '\\') (by decide) rfl
  · subst hfeed
    exact readString_simple (e := 'n') (by decide) rfl
  · subst hreturn
    exact readString_simple (e := 'r') (by decide) rfl
  · subst htab
    exact readString_simple (e := 't') (by decide) rfl
  · subst hback
    exact readString_simple (e := 'b') (by decide) rfl
  · subst hform
    exact readString_simple (e := 'f') (by decide) rfl
  · obtain ⟨hhex, hvalue⟩ := hexValue?_low c.toNat hlow
    rw [hhex]
    exact readString_unit hvalue
  · obtain ⟨hhex, hvalue⟩ := hexValue?_high c.toNat hcontrol (Nat.le_of_not_lt hlow)
    rw [hhex]
    exact readString_unit hvalue
  · exact readString_plain hquote hslash (Nat.le_of_not_lt hcontrol)

/-- **A string is read back**, whatever it holds. -/
theorem readString_flatMap (t rest : Text) :
    readString (t.flatMap escapedChar ++ '"' :: rest) = some (t, rest) := by
  induction t with
  | nil => exact readString_quote rest
  | cons c t ih =>
    rw [List.flatMap_cons, List.append_assoc, readString_escapedChar, ih]
    rfl

/-! ## Digits -/

/-- What stands behind a number does not make it longer. -/
def Bounds (rest : Text) : Prop :=
  ∀ c ∈ rest.head?, c.isDigit = false ∧ c ≠ '.' ∧ c ≠ 'e' ∧ c ≠ 'E'

theorem digits_ofNat (n : Nat) (h : Bounds rest) :
    Number.digits (Text.ofNat n ++ rest) = (Text.ofNat n, rest) := by
  have hdigits : ∀ c ∈ Text.ofNat n, c.isDigit := fun c => Text.isDigit_of_mem_ofNat
  have hrest : rest.takeWhile Char.isDigit = [] ∧ rest.dropWhile Char.isDigit = rest := by
    cases rest with
    | nil => exact ⟨rfl, rfl⟩
    | cons c rest =>
      have hc : ¬ c.isDigit := by
        rw [(h c rfl).1]
        exact Bool.false_ne_true
      exact ⟨List.takeWhile_cons_of_neg hc, List.dropWhile_cons_of_neg hc⟩
  rw [Number.digits, List.takeWhile_append_of_pos hdigits, List.dropWhile_append_of_pos hdigits,
    hrest.1, hrest.2, List.append_nil]

/-- A number is written without needless zeros. -/
theorem eq_zero_of_head?_ofNat (h : (Text.ofNat n).head? = some '0') : n = 0 := by
  induction n using Nat.strongRecOn with
  | ind n ih =>
    rw [Text.ofNat] at h
    rcases Nat.lt_or_ge n 10 with hlt | hge
    · have hdigit : ∀ n < 10, n.digitChar = '0' → n = 0 := by decide
      rw [Nat.toDigits_of_lt_base hlt, List.head?_cons] at h
      exact hdigit n hlt (Option.some.inj h)
    · rw [Nat.toDigits_of_base_le (by decide) hge, List.head?_append_of_ne_nil _ Nat.toDigits_ne_nil]
        at h
      have := ih (n / 10) (by omega) h
      omega

/-- The value of digits behind a significand. -/
def valueBehind (significand : Nat) (digits : Text) : Nat :=
  digits.foldl (fun n c => 10 * n + (c.toNat - '0'.toNat)) significand

theorem le_valueBehind (significand : Nat) (digits : Text) :
    significand ≤ valueBehind significand digits := by
  induction digits generalizing significand with
  | nil => exact Nat.le_refl _
  | cons c digits ih =>
    refine Nat.le_trans ?_ (ih (10 * significand + (c.toNat - '0'.toNat)))
    omega

/-- Digits of a value below `2 ^ 64` are absorbed. -/
theorem absorb_eq {significand : Nat} {digits : Text} (h : valueBehind significand digits < 2 ^ 64) :
    Number.absorb significand digits = (valueBehind significand digits, []) := by
  induction digits generalizing significand with
  | nil => rfl
  | cons c digits ih =>
    have hle := le_valueBehind (10 * significand + (c.toNat - '0'.toNat)) digits
    have hlt : 10 * significand + (c.toNat - '0'.toNat) < 1 <<< 64 := Nat.lt_of_le_of_lt hle h
    rw [Number.absorb, if_pos hlt]
    exact ih h

/-- What is absorbed stays below `2 ^ 64`. -/
theorem absorb_lt {significand : Nat} (h : significand < 2 ^ 64) (digits : Text) :
    (Number.absorb significand digits).1 < 2 ^ 64 := by
  induction digits generalizing significand with
  | nil => exact h
  | cons c digits ih =>
    simp only [Number.absorb]
    split
    · next hlt => exact ih hlt
    · exact h

/-! ## Numbers -/

namespace Number

/-- An integer within 64 bits: a natural number, or the negative of one. -/
inductive Exact : Number → Prop
  | natural {n : Nat} : n < 2 ^ 64 → Exact (.natural n)
  | negative {n : Nat} : 0 < n → n ≤ 2 ^ 63 → Exact (.negative n)

theorem readFraction_of_bounds (h : Bounds rest) : readFraction rest = some (none, rest) := by
  unfold readFraction
  split
  · exact absurd rfl (h '.' rfl).2.1
  · rfl

theorem readExponent_of_bounds (h : Bounds rest) : readExponent rest = some (none, rest) := by
  cases rest with
  | nil => rfl
  | cons c rest =>
    obtain ⟨-, -, he, hE⟩ := h c rfl
    rw [readExponent, if_neg (by simp [he, hE])]

/-- The digits of a number below `2 ^ 64` are absorbed as that number. -/
theorem absorb_ofNat (h : n < 2 ^ 64) : absorb 0 (Text.ofNat n) = (n, []) := by
  have hvalue : valueBehind 0 (Text.ofNat n) = n := Text.digitsValue_ofNat n
  rw [absorb_eq (by rwa [hvalue]), hvalue]

/-- The digits of a number are read for what they are, with a sign or without one. -/
theorem read_ofNat (isNegative : Bool) (n : Nat) (h : Bounds rest) :
    read ((if isNegative then ['-'] else []) ++ Text.ofNat n ++ rest) =
      (Written.value? ⟨isNegative, Text.ofNat n, none, none⟩).map (·, rest) := by
  have hnonempty : Text.ofNat n ≠ [] := Nat.toDigits_ne_nil
  have hminus : (Text.ofNat n ++ rest).head? ≠ some '-' := by
    rw [List.head?_append_of_ne_nil _ hnonempty]
    intro hhead
    exact absurd (Text.isDigit_of_mem_ofNat (List.mem_of_mem_head? hhead)) (by decide)
  have hzeros : ¬ (Text.ofNat n = [] ∨
      ((Text.ofNat n).head? = some '0' ∧ Text.ofNat n ≠ ['0'])) := by
    rintro (hempty | ⟨hhead, hne⟩)
    · exact hnonempty hempty
    · obtain rfl := eq_zero_of_head?_ofNat hhead
      exact hne rfl
  cases isNegative with
  | false =>
    simp only [read, Bool.false_eq_true, if_false, List.nil_append, hminus, digits_ofNat n h,
      if_neg hzeros, readFraction_of_bounds h, Option.bind_eq_bind, Option.bind_some,
      readExponent_of_bounds h, decide_false]
    cases Written.value? ⟨false, Text.ofNat n, none, none⟩ <;> rfl
  | true =>
    simp only [read, if_true, List.cons_append, List.nil_append, List.head?_cons, List.drop_one,
      List.tail_cons, digits_ofNat n h, if_neg hzeros, readFraction_of_bounds h,
      Option.bind_eq_bind, Option.bind_some, readExponent_of_bounds h, decide_true]
    cases Written.value? ⟨true, Text.ofNat n, none, none⟩ <;> rfl

/-- **An integer within 64 bits is read back.** -/
theorem Exact.read_print {number : Number} (hnumber : number.Exact) (h : Bounds rest) :
    read (number.print ++ rest) = some (number, rest) := by
  cases hnumber with
  | @natural n hn =>
    have hvalue : Written.value? ⟨false, Text.ofNat n, none, none⟩ = some (.natural n) := by
      simp only [Written.value?, absorb_ofNat hn]
      rfl
    have hread := read_ofNat false n h
    rw [hvalue] at hread
    exact hread
  | @negative n hpos hn =>
    have hvalue : Written.value? ⟨true, Text.ofNat n, none, none⟩ = some (.negative n) := by
      simp only [Written.value?, absorb_ofNat (Nat.lt_of_le_of_lt hn (by decide)), not_true,
        if_false]
      exact if_pos ⟨hpos, hn⟩
    have hread := read_ofNat true n h
    rw [hvalue] at hread
    exact hread

/-- A natural number that is read is within 64 bits. -/
theorem natural_of_value? {w : Written} (h : w.value? = some (.natural n)) : n < 2 ^ 64 := by
  have hlt : (absorb 0 w.whole).1 < 2 ^ 64 := absorb_lt (by decide) w.whole
  simp only [Written.value?] at h
  split at h
  · split at h
    · cases h
      exact hlt
    · split at h
      · cases h
      · obtain ⟨value, -, hreal⟩ := Option.map_eq_some_iff.mp h
        cases hreal
  · obtain ⟨value, -, hreal⟩ := Option.map_eq_some_iff.mp h
    cases hreal

theorem natural_of_read (h : read t = some (.natural n, rest)) : n < 2 ^ 64 := by
  unfold read at h
  dsimp only at h
  generalize (if t.head? = some '-' then t.drop 1 else t) = t' at h
  split at h
  · cases h
  · obtain ⟨fraction, -, h⟩ := Option.bind_eq_some_iff.mp h
    obtain ⟨exponent, -, h⟩ := Option.bind_eq_some_iff.mp h
    obtain ⟨number, hvalue, h⟩ := Option.bind_eq_some_iff.mp h
    obtain ⟨rfl, -⟩ := Prod.mk.inj (Option.some.inj h)
    exact natural_of_value? hvalue

end Number

end Workbench.Json
