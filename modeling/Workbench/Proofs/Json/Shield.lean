import Workbench.Json.Reader

/-!
# Proofs/Json/Shield — what stands in a string stays on its line

Few characters stand in a value outside of its strings (`bareChars`), and no string holds a line
feed.  So behind any other character of a text that is read as a value, the quote that ends its
string comes before the line does (`shields_of_read?`).
-/

namespace Workbench.Json

/-- The characters of values outside of what strings hold. -/
def bareChars : Text := "\"\x7b\x7d[],:.+-0123456789Eeaflnrstu \t\n\r"

/-- Behind every `x` of the text a quote comes before the line ends. -/
def Shields (x : Char) (t : Text) : Prop :=
  ∀ before after, t = before ++ x :: after → ∃ s u, after = s ++ '"' :: u ∧ '\n' ∉ s

/-- What is in front of `rest` shields `x`. -/
def Passes (x : Char) (t rest : Text) : Prop := ∃ used, t = used ++ rest ∧ Shields x used

variable {x : Char} {s t u rest : Text}

/-! ## Texts that shield -/

/-- Texts that shield a character shield it side by side as well. -/
theorem Shields.append (hs : Shields x s) (ht : Shields x t) : Shields x (s ++ t) := by
  intro before after h
  rcases List.append_eq_append_iff.mp h with ⟨before', rfl, h'⟩ | ⟨after', rfl, h'⟩
  · exact ht before' after h'
  · cases after' with
    | nil => exact ht [] after h'.symm
    | cons c after' =>
      obtain ⟨rfl, rfl⟩ := List.cons_eq_cons.mp h'
      obtain ⟨left, right, rfl, hleft⟩ := hs before after' rfl
      exact ⟨left, right ++ t, by simp, hleft⟩

/-- A character that does not occur needs no shield. -/
theorem Shields.of_notMem (h : x ∉ t) : Shields x t := by
  rintro before after rfl
  exact absurd (by simp) h

/-- A string shields all that it holds. -/
theorem Shields.literal (hx : x ≠ '"') (h : '\n' ∉ s) : Shields x (s ++ ['"']) := by
  intro before after hsplit
  rcases List.append_eq_append_iff.mp hsplit with ⟨before', -, hquote⟩ | ⟨after', rfl, hquote⟩
  · -- `x` would be the quote, or stand behind it
    have hmem : x ∈ ['"'] := by simp [hquote]
    exact absurd (List.mem_singleton.mp hmem) hx
  · cases after' with
    | nil => exact absurd (List.cons_eq_cons.mp hquote).1 hx
    | cons c after' =>
      obtain ⟨rfl, rfl⟩ := List.cons_eq_cons.mp hquote
      exact ⟨after', [], rfl, fun hmem => h (by simp [hmem])⟩

theorem ne_quote_of_notMem (hx : x ∉ bareChars) : x ≠ '"' := by
  rintro rfl
  exact hx (by decide)

/-- Where nothing is passed over, nothing has to be shielded. -/
theorem Passes.refl (x : Char) (t : Text) : Passes x t t := ⟨[], rfl, .of_notMem List.not_mem_nil⟩

/-- What is passed over in two steps is passed over. -/
theorem Passes.trans (hs : Passes x s t) (ht : Passes x t u) : Passes x s u := by
  obtain ⟨used, rfl, hused⟩ := hs
  obtain ⟨used', rfl, hused'⟩ := ht
  exact ⟨used ++ used', by simp, hused.append hused'⟩

/-- Bare characters are passed. -/
theorem Passes.of_bare (hx : x ∉ bareChars) (h : s ⊆ bareChars) (t : Text) :
    Passes x (s ++ t) t :=
  ⟨s, rfl, .of_notMem fun hmem => hx (h hmem)⟩

theorem Passes.cons (hx : x ∉ bareChars) {c : Char} (hc : c ∈ bareChars) (t : Text) :
    Passes x (c :: t) t :=
  .of_bare (s := [c]) hx (by simpa using hc) t

/-- One bare character in front is passed. -/
theorem Passes.drop_one (hx : x ∉ bareChars) {c : Char} (ht : t.head? = some c)
    (hc : c ∈ bareChars) : Passes x t (t.drop 1) := by
  cases t with
  | nil => cases ht
  | cons d t =>
    obtain rfl : d = c := Option.some.inj ht
    exact .cons hx hc t

/-! ## Blanks and strings -/

theorem mem_bareChars_of_isSpace {c : Char} (h : isSpace c) : c ∈ bareChars := by
  simp only [isSpace, Bool.or_eq_true, decide_eq_true_eq] at h
  rcases h with ((rfl | rfl) | rfl) | rfl <;> decide

/-- Blanks between the parts of a value are bare. -/
theorem Passes.skip (hx : x ∉ bareChars) (t : Text) : Passes x t (skip t) := by
  have hspace : t.takeWhile isSpace ⊆ bareChars := fun c hc =>
    mem_bareChars_of_isSpace (List.all_eq_true.mp List.all_takeWhile c hc)
  have := Passes.of_bare hx hspace (Json.skip t)
  rwa [Json.skip, List.takeWhile_append_dropWhile] at this

/-- A bare character is passed together with the blanks behind it. -/
theorem Passes.cons_skip (hx : x ∉ bareChars) {c : Char} (hc : c ∈ bareChars) (t : Text) :
    Passes x (c :: t) (Json.skip t) := (Passes.cons hx hc t).trans (.skip hx t)

/-- A string is over on the line on which it begins. -/
def Closes (t rest : Text) : Prop := ∃ s, t = s ++ '"' :: rest ∧ '\n' ∉ s

/-- What stands on the line in front of the quote may be longer. -/
theorem Closes.append (hs : '\n' ∉ s) (h : Closes t rest) : Closes (s ++ t) rest := by
  obtain ⟨s', rfl, hs'⟩ := h
  exact ⟨s ++ s', by simp, by simp [hs, hs']⟩

/-- A line feed is no hexadecimal digit. -/
theorem feed_notMem_of_hexValue? {s : Text} {n : Nat} (h : Text.hexValue? s = some n) :
    '\n' ∉ s := by
  have hnone (m : Nat) : (Text.digitIn? 16 '\n').map (16 * m + ·) = none := by
    rw [show Text.digitIn? 16 '\n' = none by decide]
    rfl
  intro hmem
  obtain ⟨before, after, rfl⟩ := List.append_of_mem hmem
  rw [Text.hexValue?, List.foldlM_append] at h
  obtain ⟨m, -, h⟩ := Option.bind_eq_some_iff.mp h
  rw [List.foldlM_cons, hnone] at h
  cases h

/-- A string is read through the quote that ends it, and on one line. -/
theorem closes_of_readString {r : Text × Text} (h : readString t = some r) : Closes t r.2 := by
  fun_induction readString t generalizing r with
  | case1 | case5 => cases h
  | case2 t =>
    obtain rfl : ([], t) = r := Option.some.inj h
    exact ⟨[], rfl, List.not_mem_nil⟩
  | case3 a b c d t ih ih' =>
    obtain ⟨unit, hunit, h⟩ := Option.bind_eq_some_iff.mp h
    have habcd : '\n' ∉ ['\\', 'u', a, b, c, d] := by
      have := feed_notMem_of_hexValue? hunit
      simp_all
    split at h
    · obtain ⟨r, hr, h⟩ := Option.bind_eq_some_iff.mp h
      cases h
      exact (ih hr).append habcd
    · -- a surrogate, and behind it the other one of its pair
      split at h
      · next e f g i t' _ =>
        obtain ⟨low, hlow, h⟩ := Option.bind_eq_some_iff.mp h
        obtain ⟨scalar, -, h⟩ := Option.bind_eq_some_iff.mp h
        obtain ⟨r, hr, h⟩ := Option.bind_eq_some_iff.mp h
        cases h
        have hefgi : '\n' ∉ ['\\', 'u', e, f, g, i] := by
          have := feed_notMem_of_hexValue? hlow
          simp_all
        exact ((ih' hr).append hefgi).append habcd
      · cases h
  | case4 c t _ ih =>
    obtain ⟨e, he, h⟩ := Option.bind_eq_some_iff.mp h
    obtain ⟨r, hr, h⟩ := Option.bind_eq_some_iff.mp h
    cases h
    have hc : c ≠ '\n' := by
      rintro rfl
      cases he
    exact (ih hr).append (s := ['\\', c]) (by simp [Ne.symm hc])
  | case6 c t _ _ _ hc ih =>
    obtain ⟨r, hr, h⟩ := Option.bind_eq_some_iff.mp h
    cases h
    have hc : c ≠ '\n' := by
      rintro rfl
      exact hc (.inl (by decide))
    exact (ih hr).append (s := [c]) (by simpa using Ne.symm hc)

/-- A string is passed, whatever it holds. -/
theorem passes_of_readString (hx : x ∉ bareChars) {r : Text × Text} (h : readString t = some r) :
    Passes x ('"' :: t) r.2 := by
  obtain ⟨s, rfl, hs⟩ := closes_of_readString h
  have hliteral : Passes x (s ++ '"' :: r.2) r.2 :=
    ⟨s ++ ['"'], by simp, .literal (ne_quote_of_notMem hx) hs⟩
  exact (Passes.cons hx (by decide) _).trans hliteral

/-! ## Numbers -/

/-- Digits are bare, wherever they stand in a number. -/
theorem mem_bareChars_of_isDigit {c : Char} (h : c.isDigit) : c ∈ bareChars := by
  obtain ⟨d, hd, rfl⟩ : ∃ d < 10, c = Char.ofNat (48 + d) := by
    have h' : 48 ≤ c.toNat ∧ c.toNat ≤ 57 := Char.isDigit_iff_toNat.mp h
    refine ⟨c.toNat - 48, by omega, ?_⟩
    rw [Nat.add_sub_cancel' h'.1, Char.ofNat_toNat]
  have hall : ∀ d < 10, Char.ofNat (48 + d) ∈ bareChars := by decide
  exact hall d hd

/-- A run of digits is passed. -/
theorem Passes.digits (hx : x ∉ bareChars) (t : Text) : Passes x t (Number.digits t).2 := by
  have hdigit : t.takeWhile Char.isDigit ⊆ bareChars := fun c hc =>
    mem_bareChars_of_isDigit (List.all_eq_true.mp List.all_takeWhile c hc)
  have := Passes.of_bare hx hdigit (t.dropWhile Char.isDigit)
  rwa [List.takeWhile_append_dropWhile] at this

theorem passes_of_readFraction (hx : x ∉ bareChars) {r : Option Text × Text}
    (h : Number.readFraction t = some r) : Passes x t r.2 := by
  unfold Number.readFraction at h
  split at h
  · next t =>
    dsimp only at h
    split at h
    · cases h
    · cases h
      exact (Passes.cons hx (by decide) t).trans (.digits hx t)
  · cases h
    exact .refl x t

theorem passes_of_readExponent (hx : x ∉ bareChars) {r : Option Int × Text}
    (h : Number.readExponent t = some r) : Passes x t r.2 := by
  unfold Number.readExponent at h
  split at h
  · next c t =>
    split at h
    · next hc =>
      have he : Passes x (c :: t) t := .cons hx (by rcases hc with rfl | rfl <;> decide) t
      have hsign : Passes x t
          (if t.head? = some '-' ∨ t.head? = some '+' then t.drop 1 else t) := by
        split
        · next hsign =>
          rcases hsign with hsign | hsign
          · exact .drop_one hx hsign (by decide)
          · exact .drop_one hx hsign (by decide)
        · exact .refl x t
      dsimp only at h
      generalize (if t.head? = some '-' ∨ t.head? = some '+' then t.drop 1 else t) = t' at h hsign
      split at h
      · cases h
      · cases h
        exact (he.trans hsign).trans (.digits hx _)
    · cases h
      exact .refl x _
  · cases h
    exact .refl x _

/-- A number is passed: it is a sign, digits, a fraction and an exponent, all of bare characters. -/
theorem passes_of_readNumber (hx : x ∉ bareChars) {r : Number × Text}
    (h : Number.read t = some r) : Passes x t r.2 := by
  have hsign : Passes x t (if t.head? = some '-' then t.drop 1 else t) := by
    split
    · next hsign => exact .drop_one hx hsign (by decide)
    · exact .refl x t
  unfold Number.read at h
  dsimp only at h
  generalize (if t.head? = some '-' then t.drop 1 else t) = t' at h hsign
  split at h
  · cases h
  · obtain ⟨fraction, hfraction, h⟩ := Option.bind_eq_some_iff.mp h
    obtain ⟨exponent, hexponent, h⟩ := Option.bind_eq_some_iff.mp h
    obtain ⟨n, -, h⟩ := Option.bind_eq_some_iff.mp h
    cases h
    have hbehind := (passes_of_readFraction hx hfraction).trans
      (passes_of_readExponent hx hexponent)
    exact (hsign.trans (.digits hx t')).trans hbehind

/-! ## Values -/

/-- The readers of values pass over what they read, as long as they have `fuel`. -/
structure ReadersPass (x : Char) (fuel : Nat) : Prop where
  value : ∀ {depth t r}, readValue fuel depth t = some r → Passes x t r.2
  items : ∀ {depth t r}, readItems fuel depth t = some r → Passes x t r.2
  members : ∀ {depth t r}, readMembers fuel depth t = some r → Passes x t r.2

/-- Without fuel nothing is read. -/
theorem ReadersPass.zero (x : Char) : ReadersPass x 0 := by
  refine ⟨?_, ?_, ?_⟩ <;> intro depth t r h <;> cases depth <;> cases h

/-- A word of bare characters is passed, like `null` or `true`. -/
theorem passes_of_dropMark? (hx : x ∉ bareChars) {mark : Text} (hmark : mark ⊆ bareChars)
    (h : Text.dropMark? mark t = some rest) : Passes x t rest := by
  obtain rfl := Text.dropMark?_eq_some.mp h
  exact .of_bare hx hmark rest

variable {fuel depth : Nat}

/-- A value is passed if, with less fuel, the items and the members in it are. -/
theorem ReadersPass.value_succ (hx : x ∉ bareChars) (ih : ReadersPass x fuel) {r : Json × Text}
    (h : readValue (fuel + 1) depth t = some r) : Passes x t r.2 := by
  rw [readValue.eq_def] at h
  dsimp only at h
  split at h
  · next t =>
    obtain ⟨⟨s, rest⟩, hs, rfl⟩ := Option.map_eq_some_iff.mp h
    exact passes_of_readString hx hs
  · next t =>
    have hopen : Passes x ('[' :: t) (skip t) := .cons_skip hx (by decide) t
    split at h
    · cases h
    · next rest hskip =>
      cases h
      rw [hskip] at hopen
      exact hopen.trans (.cons hx (by decide) rest)
    · obtain ⟨⟨items, rest⟩, hitems, rfl⟩ := Option.map_eq_some_iff.mp h
      exact hopen.trans (ih.items hitems)
  · next t =>
    have hopen : Passes x ('\x7b' :: t) (skip t) := .cons_skip hx (by decide) t
    split at h
    · cases h
    · next rest hskip =>
      cases h
      rw [hskip] at hopen
      exact hopen.trans (.cons hx (by decide) rest)
    · obtain ⟨⟨members, rest⟩, hmembers, rfl⟩ := Option.map_eq_some_iff.mp h
      exact hopen.trans (ih.members hmembers)
  · split at h
    · next hdrop =>
      cases h
      exact passes_of_dropMark? hx (by decide) hdrop
    · next hdrop _ =>
      cases h
      exact passes_of_dropMark? hx (by decide) hdrop
    · next hdrop _ _ =>
      cases h
      exact passes_of_dropMark? hx (by decide) hdrop
    · obtain ⟨⟨n, rest⟩, hn, rfl⟩ := Option.map_eq_some_iff.mp h
      exact passes_of_readNumber hx hn

/-- Items are passed one after the other, with the commas between them. -/
theorem ReadersPass.items_succ (hx : x ∉ bareChars) (ih : ReadersPass x fuel)
    {r : List Json × Text} (h : readItems (fuel + 1) depth t = some r) : Passes x t r.2 := by
  rw [readItems] at h
  obtain ⟨⟨item, behind⟩, hitem, h⟩ := Option.bind_eq_some_iff.mp h
  have hfirst : Passes x t (skip behind) := (ih.value hitem).trans (.skip hx behind)
  dsimp only at h
  split at h
  · next rest hskip =>
    cases h
    rw [hskip] at hfirst
    exact hfirst.trans (.cons hx (by decide) rest)
  · next t' hskip =>
    obtain ⟨⟨items, rest⟩, hitems, h⟩ := Option.bind_eq_some_iff.mp h
    have hothers : Passes x (skip t') rest := ih.items hitems
    cases h
    rw [hskip] at hfirst
    have hcomma := Passes.cons_skip hx (c := ',') (by decide) t'
    exact (hfirst.trans hcomma).trans hothers
  · cases h

/-- Members are passed one after the other: the key is a string, and what is between key and value
is bare. -/
theorem ReadersPass.members_succ (hx : x ∉ bareChars) (ih : ReadersPass x fuel)
    {r : Members × Text} (h : readMembers (fuel + 1) depth t = some r) : Passes x t r.2 := by
  rw [readMembers.eq_def] at h
  dsimp only at h
  split at h
  · next t =>
    obtain ⟨⟨key, behind⟩, hkey, h⟩ := Option.bind_eq_some_iff.mp h
    have hkey : Passes x ('"' :: t) (skip behind) :=
      (passes_of_readString hx hkey).trans (.skip hx behind)
    dsimp only at h
    split at h
    · next t' hskip =>
      rw [hskip] at hkey
      have hcolon := Passes.cons_skip hx (c := ':') (by decide) t'
      obtain ⟨⟨value, behind⟩, hvalue, h⟩ := Option.bind_eq_some_iff.mp h
      have hmember : Passes x ('"' :: t) (skip behind) :=
        ((hkey.trans hcolon).trans (ih.value hvalue)).trans (.skip hx behind)
      dsimp only at h
      split at h
      · next rest hskip =>
        cases h
        rw [hskip] at hmember
        exact hmember.trans (.cons hx (by decide) rest)
      · next t' hskip =>
        obtain ⟨⟨members, rest⟩, hmembers, h⟩ := Option.bind_eq_some_iff.mp h
        have hothers : Passes x (skip t') rest := ih.members hmembers
        cases h
        rw [hskip] at hmember
        have hcomma := Passes.cons_skip hx (c := ',') (by decide) t'
        exact (hmember.trans hcomma).trans hothers
      · cases h
    · cases h
  · cases h

/-- **All readers pass over what they read**, by induction on the fuel. -/
theorem ReadersPass.of_notMem (hx : x ∉ bareChars) (fuel : Nat) : ReadersPass x fuel := by
  induction fuel with
  | zero => exact .zero x
  | succ fuel ih => exact ⟨ih.value_succ hx, ih.items_succ hx, ih.members_succ hx⟩

/-- What a text holds that is read as a value stands in a string, if it is not bare. -/
theorem shields_of_read? (hx : x ∉ bareChars) {v : Json} (h : read? t = some v) : Shields x t := by
  rw [read?] at h
  split at h
  · next value rest hvalue =>
    split at h
    · next hrest =>
      have hall : Passes x t [] := by
        rw [← hrest]
        exact ((Passes.skip hx t).trans ((ReadersPass.of_notMem hx _).value hvalue)).trans
          (.skip hx rest)
      obtain ⟨used, rfl, hused⟩ := hall
      rwa [List.append_nil]
    · cases h
  · cases h

end Workbench.Json
