import Mathlib
import Workbench.Json.Printer
import Workbench.Text.Offset

/-!
# Proofs/Json/Size — the text of a value is as long as what it holds

Nothing that a value holds is lost in its text: a string is as long as it is between the quotes
(`bytes_le_printString`), and the text of an object as long as that of each of its members
(`bytes_le_print_object`).
-/

namespace Workbench.Json

open Text (bytes bytes_append)

variable {members : Members} {key : Text} {value : Json}

theorem utf8Size_of_ascii {c : Char} (h : c.toNat < 0x80) : c.utf8Size = 1 :=
  Char.utf8Size_eq_one_iff.mpr (Nat.le_of_lt_succ h)

/-- No character gets shorter by being escaped. -/
theorem utf8Size_le_escapedChar (c : Char) : c.utf8Size ≤ bytes (escapedChar c) := by
  have hescape {t : Text} (hc : c.toNat < 0x80) (ht : t ≠ []) : c.utf8Size ≤ bytes t := by
    obtain ⟨d, t, rfl⟩ := List.exists_cons_of_ne_nil ht
    rw [utf8Size_of_ascii hc, bytes]
    exact Nat.le_trans (Char.utf8Size_pos d) (Nat.le_add_right _ _)
  unfold escapedChar
  split_ifs with hquote hslash hfeed hreturn htab hback hform hlow hcontrol
  · exact hescape (by simp [hquote]) (by simp)
  · exact hescape (by simp [hslash]) (by simp)
  · exact hescape (by simp [hfeed]) (by simp)
  · exact hescape (by simp [hreturn]) (by simp)
  · exact hescape (by simp [htab]) (by simp)
  · exact hescape (by simp [hback]) (by simp)
  · exact hescape (by simp [hform]) (by simp)
  · exact hescape (by omega) (by simp)
  · exact hescape (by omega) (by simp)
  · exact Nat.le_refl _

/-- A text is as long as it is between its quotes, or longer there. -/
theorem bytes_le_printString (t : Text) : bytes t ≤ bytes (printString t) := by
  have hescaped : bytes t ≤ bytes (t.flatMap escapedChar) := by
    induction t with
    | nil => exact Nat.le_refl _
    | cons c t ih =>
      rw [List.flatMap_cons, bytes_append, bytes]
      exact Nat.add_le_add (utf8Size_le_escapedChar c) ih
  rw [printString, List.cons_append, bytes, bytes_append]
  omega

/-- Behind every member but the last there is a comma. -/
theorem printMembers_cons (key : Text) (value : Json) (h : members ≠ []) :
    printMembers ((key, value) :: members) =
      printString key ++ ':' :: (value.print ++ ',' :: printMembers members) := by
  obtain ⟨next, more, rfl⟩ := List.exists_cons_of_ne_nil h
  simp [printMembers]

theorem bytes_le_printMembers (h : (key, value) ∈ members) :
    bytes value.print ≤ bytes (printMembers members) := by
  induction members with
  | nil => cases h
  | cons member members ih =>
    cases members with
    | nil =>
      obtain rfl := List.mem_singleton.mp h
      rw [printMembers, bytes_append, bytes]
      omega
    | cons next more =>
      obtain ⟨k, v⟩ := member
      rw [printMembers_cons k v (List.cons_ne_nil next more), bytes_append, bytes, bytes_append, bytes]
      rcases List.mem_cons.mp h with heq | hmem
      · obtain ⟨rfl, rfl⟩ := Prod.mk.inj heq
        omega
      · have := ih hmem
        omega

/-- The text of an object is longer than that of any value in it. -/
theorem bytes_le_print_object (h : (key, value) ∈ members) :
    bytes value.print ≤ bytes (object members).print := by
  rw [print, bytes_append, bytes]
  have := bytes_le_printMembers h
  omega

/-- The text of an object is at least as long as any text in it. -/
theorem bytes_le_of_string {t : Text} (key : Text) (h : (key, string t) ∈ members) :
    bytes t ≤ bytes (object members).print :=
  Nat.le_trans (bytes_le_printString t) (bytes_le_print_object h)

/-- A text that is written as it is takes two quotes more. -/
theorem bytes_printString {t : Text} (h : ∀ c ∈ t, escapedChar c = [c]) :
    bytes (printString t) = bytes t + 2 := by
  have hescaped : t.flatMap escapedChar = t := by
    rw [List.flatMap_congr h, List.flatMap_singleton']
  rw [printString, hescaped, List.cons_append, bytes, bytes_append]
  have hquote : '"'.utf8Size = 1 := by decide
  simp only [hquote, bytes]
  omega

/-- Objects that differ in their last value alone differ in length as its values do. -/
theorem bytes_object_concat (members : Members) (key : Text) (v w : Json) :
    bytes (object (members ++ [(key, v)])).print + bytes w.print =
      bytes (object (members ++ [(key, w)])).print + bytes v.print := by
  have hmembers : bytes (printMembers (members ++ [(key, v)])) + bytes w.print =
      bytes (printMembers (members ++ [(key, w)])) + bytes v.print := by
    induction members with
    | nil =>
      simp only [List.nil_append, printMembers, bytes_append, bytes]
      omega
    | cons member members ih =>
      obtain ⟨k, x⟩ := member
      simp only [List.cons_append, printMembers_cons k x (List.concat_ne_nil _ _), bytes_append,
        bytes] at ih ⊢
      omega
  simp only [print, bytes_append, bytes]
  omega

/-- An object that ends in an object that ends in a text is longer by that text than it would be
without. -/
theorem bytes_object_text (outer inner : Members) (key name : Text) {t : Text}
    (h : ∀ c ∈ t, escapedChar c = [c]) :
    bytes (object (outer ++ [(key, object (inner ++ [(name, string t)]))])).print =
      bytes (object (outer ++ [(key, object (inner ++ [(name, string [])]))])).print +
        bytes t := by
  have hinner := bytes_object_concat inner name (string t) (string [])
  have houter := bytes_object_concat outer key (object (inner ++ [(name, string t)]))
    (object (inner ++ [(name, string [])]))
  have ht : bytes (string t).print = bytes t + 2 := bytes_printString h
  have hempty : bytes (string []).print = 2 := by decide
  omega

end Workbench.Json
