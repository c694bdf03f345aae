import Workbench.Proofs.Json.Literal

/-!
# Proofs/Json/RoundTrip — values are read back

A value whose numbers are integers within 64 bits is read back from its text, if no more arrays and
objects stand around one another than the reader allows (`Exact.read?_print`).  The readers of values,
items and members are shown to do so together, with two steps for each character; what stands
behind a value must not make it longer.
-/

namespace Workbench.Json

/-! ## Values that are read back -/

/-- All numbers of a value are integers within 64 bits. -/
inductive Exact : Json → Prop
  | null : Exact null
  | bool (b : Bool) : Exact (bool b)
  | number {n : Number} : n.Exact → Exact (number n)
  | string (t : Text) : Exact (string t)
  | array {items : List Json} : (∀ item ∈ items, Exact item) → Exact (array items)
  | object {members : Members} : (∀ member ∈ members, Exact member.2) → Exact (object members)

mutual

/-- The number of arrays and objects that stand around one another. -/
def depth : Json → Nat
  | array items => depthItems items + 1
  | object members => depthMembers members + 1
  | null => 0
  | bool _ => 0
  | number _ => 0
  | string _ => 0

/-- The greatest depth of an item. -/
def depthItems : List Json → Nat
  | [] => 0
  | item :: items => max item.depth (depthItems items)

/-- The greatest depth of a member. -/
def depthMembers : Members → Nat
  | [] => 0
  | (_, value) :: members => max value.depth (depthMembers members)

end

variable {v : Json} {items : List Json} {members : Members} {t u rest : Text}
  {fuel d : Nat} {c : Char}

/-- A natural number is exact as long as it fits in 64 bits. -/
@[simp] theorem exact_ofNat_iff {n : Nat} : (ofNat n).Exact ↔ n < 2 ^ 64 :=
  ⟨fun | .number (.natural h) => h, fun h => .number (.natural h)⟩

@[simp] theorem exact_array_iff : (array items).Exact ↔ ∀ item ∈ items, item.Exact :=
  ⟨fun | .array h => h, .array⟩

@[simp] theorem exact_object_iff : (object members).Exact ↔ ∀ member ∈ members, member.2.Exact :=
  ⟨fun | .object h => h, .object⟩

/-- Items are as deep as the deepest of them. -/
theorem depthItems_le_iff : depthItems items ≤ d ↔ ∀ item ∈ items, item.depth ≤ d := by
  induction items with
  | nil => simp [depthItems]
  | cons item items ih => simp [depthItems, ih]

/-- Members are as deep as the deepest value among them. -/
theorem depthMembers_le_iff : depthMembers members ≤ d ↔ ∀ member ∈ members, member.2.depth ≤ d := by
  induction members with
  | nil => simp [depthMembers]
  | cons member members ih => simp [depthMembers, ih]

/-! ## How values begin -/

/-- A text begins as a value does: with no blank, and with no bracket that ends items. -/
def Begins (t : Text) : Prop := ∃ c u, t = c :: u ∧ isSpace c = false ∧ c ≠ ']'

namespace Begins

theorem append (h : Begins t) (rest : Text) : Begins (t ++ rest) := by
  obtain ⟨c, u, rfl, hc⟩ := h
  exact ⟨c, u ++ rest, rfl, hc⟩

/-- In front of a value there is no blank to skip. -/
theorem skip_eq (h : Begins t) : skip t = t := by
  obtain ⟨c, u, rfl, hspace, -⟩ := h
  exact List.dropWhile_cons_of_neg (by simp [hspace])

/-- No value begins with the bracket that ends an array. -/
theorem ne_closing (h : Begins t) : ∀ u, t ≠ ']' :: u := by
  obtain ⟨c, u, rfl, -, hclosing⟩ := h
  exact fun _ heq => hclosing (List.cons_eq_cons.mp heq).1

end Begins

/-- The text of an integer begins with a digit or a sign. -/
theorem Number.Exact.exists_print {n : Number} (h : n.Exact) :
    ∃ c u, n.print = c :: u ∧ (c.isDigit ∨ c = '-') := by
  cases h with
  | @natural n =>
    obtain ⟨c, u, hcons⟩ := List.exists_cons_of_ne_nil (Nat.toDigits_ne_nil (n := n) (b := 10))
    exact ⟨c, u, hcons, .inl (Text.isDigit_of_mem_ofNat (n := n) (by simp [Text.ofNat, hcons]))⟩
  | negative => exact ⟨'-', _, rfl, .inr rfl⟩

/-- What is written for a value begins as values do. -/
theorem Exact.begins (h : v.Exact) : Begins v.print := by
  cases h with
  | null => exact ⟨'n', _, rfl, by decide, by decide⟩
  | bool b =>
    cases b
    · exact ⟨'f', _, rfl, by decide, by decide⟩
    · exact ⟨'t', _, rfl, by decide, by decide⟩
  | number h =>
    obtain ⟨c, u, hprint, hc⟩ := h.exists_print
    have hne {m : Char} (hm : ¬ (m.isDigit ∨ m = '-')) : c ≠ m := by
      rintro rfl
      exact hm hc
    refine ⟨c, u, hprint, ?_, hne (by decide)⟩
    simp [isSpace, hne]
  | string => exact ⟨'"', _, rfl, by decide, by decide⟩
  | array => exact ⟨'[', _, rfl, by decide, by decide⟩
  | object => exact ⟨'\x7b', _, rfl, by decide, by decide⟩

/-- Items begin as the first of them does. -/
theorem begins_printItems (hne : items ≠ []) (h : ∀ item ∈ items, item.Exact) :
    Begins (printItems items) := by
  match items with
  | [item] => exact (h item (by simp)).begins
  | item :: next :: more => exact (h item (by simp)).begins.append _

/-- Members begin with the quote of a key. -/
theorem begins_printMembers (hne : members ≠ []) : ∃ u, printMembers members = '"' :: u := by
  match members with
  | [member] => exact ⟨_, rfl⟩
  | member :: next :: more => exact ⟨_, rfl⟩

/-! ## Reading in steps -/

/-- A string is read back as a value. -/
theorem readValue_string : readValue (fuel + 1) d (printString t ++ rest) = some (string t, rest) := by
  rw [printString, List.append_assoc, List.cons_append, List.singleton_append, readValue,
    readString_flatMap]
  rfl

/-- What begins with a digit or a sign is read as a number. -/
theorem readValue_number (h : c.isDigit ∨ c = '-') :
    readValue (fuel + 1) d (c :: t) = (Number.read (c :: t)).map fun (n, t) => (number n, t) := by
  have hne {m : Char} (hm : ¬ (m.isDigit ∨ m = '-')) : c ≠ m := by
    rintro rfl
    exact hm h
  have hmark {m : Char} {mark : Text} (hm : ¬ (m.isDigit ∨ m = '-')) :
      Text.dropMark? (m :: mark) (c :: t) = none :=
    if_neg (Ne.symm (hne hm))
  rw [readValue]
  · have hnull : Text.dropMark? "null".toList (c :: t) = none := hmark (by decide)
    have htrue : Text.dropMark? "true".toList (c :: t) = none := hmark (by decide)
    have hfalse : Text.dropMark? "false".toList (c :: t) = none := hmark (by decide)
    rw [hnull, htrue, hfalse]
  · exact fun _ heq => absurd (List.cons_eq_cons.mp heq).1 (hne (by decide))
  · exact fun _ heq => absurd (List.cons_eq_cons.mp heq).1 (hne (by decide))
  · exact fun _ heq => absurd (List.cons_eq_cons.mp heq).1 (hne (by decide))

/-- Behind an opening bracket items are read, unless a closing one follows. -/
theorem readValue_array (hskip : skip t = t) (hclosing : ∀ u, t ≠ ']' :: u) :
    readValue (fuel + 1) (d + 1) ('[' :: t) =
      (readItems fuel d t).map fun (items, t) => (array items, t) := by
  -- the branch of the closing bracket is refuted by `hclosing`
  rw [readValue.eq_def]
  simp only [hskip]

/-- Behind an opening brace members are read, unless a closing one follows. -/
theorem readValue_object (hskip : skip t = t) (hclosing : ∀ u, t ≠ '\x7d' :: u) :
    readValue (fuel + 1) (d + 1) ('\x7b' :: t) =
      (readMembers fuel d t).map fun (members, t) => (object members, t) := by
  -- the branch of the closing bracket is refuted by `hclosing`
  rw [readValue.eq_def]
  simp only [hskip]

/-- An item in front of a closing bracket is the last. -/
theorem readItems_last (h : readValue fuel d t = some (v, ']' :: rest)) :
    readItems (fuel + 1) d t = some ([v], rest) := by
  rw [readItems, h]
  rfl

/-- An item in front of a comma has others behind it. -/
theorem readItems_cons (h : readValue fuel d t = some (v, ',' :: u)) (hskip : skip u = u)
    (hitems : readItems fuel d u = some (items, rest)) :
    readItems (fuel + 1) d t = some (v :: items, rest) := by
  have hcomma : skip (',' :: u) = ',' :: u := rfl
  rw [readItems, h, Option.bind_eq_bind, Option.bind_some]
  simp only [hcomma, hskip, hitems]
  rfl

/-- A member in front of a closing brace is the last. -/
theorem readMembers_last {key : Text} (hskip : skip t = t)
    (h : readValue fuel d t = some (v, '\x7d' :: rest)) :
    readMembers (fuel + 1) d (printString key ++ ':' :: t) = some ([(key, v)], rest) := by
  have hcolon : skip (':' :: t) = ':' :: t := rfl
  rw [printString, List.append_assoc, List.cons_append, List.singleton_append, readMembers,
    readString_flatMap, Option.bind_eq_bind, Option.bind_some]
  simp only [hcolon, hskip, h]
  rfl

/-- A member in front of a comma has others behind it. -/
theorem readMembers_cons {key : Text} (hskip : skip t = t)
    (h : readValue fuel d t = some (v, ',' :: u)) (hskip' : skip u = u)
    (hmembers : readMembers fuel d u = some (members, rest)) :
    readMembers (fuel + 1) d (printString key ++ ':' :: t) = some ((key, v) :: members, rest) := by
  have hcolon : skip (':' :: t) = ':' :: t := rfl
  have hcomma : skip (',' :: u) = ',' :: u := rfl
  rw [printString, List.append_assoc, List.cons_append, List.singleton_append, readMembers,
    readString_flatMap, Option.bind_eq_bind, Option.bind_some]
  simp only [hcolon, hskip, h, Option.bind_eq_bind, Option.bind_some, hcomma, hskip', hmembers]
  rfl

/-! ## Reading back -/

/-- A value is read back, whatever stands behind it. -/
def ReadsBack (v : Json) : Prop :=
  ∀ {fuel d rest}, 2 * v.print.length ≤ fuel → v.depth ≤ d → Bounds rest →
    readValue fuel d (v.print ++ rest) = some (v, rest)

/-- What stands behind a value in an array or object does not make a number longer. -/
theorem bounds_cons (h : c = ',' ∨ c = ']' ∨ c = '\x7d') : Bounds (c :: t) := by
  rintro _ ⟨⟩
  rcases h with rfl | rfl | rfl <;> decide

/-- Items are read back together with the bracket that ends them. -/
theorem reads_items (hne : items ≠ []) (hexact : ∀ item ∈ items, item.Exact)
    (hreads : ∀ item ∈ items, item.ReadsBack)
    (hfuel : 2 * (printItems items).length < fuel) (hdepth : depthItems items ≤ d) :
    readItems fuel d (printItems items ++ ']' :: rest) = some (items, rest) := by
  induction items generalizing fuel with
  | nil => exact absurd rfl hne
  | cons item items ih =>
    obtain ⟨hitem, hitems⟩ := List.forall_mem_cons.mp hreads
    obtain ⟨fuel, rfl⟩ : ∃ f, fuel = f + 1 := Nat.exists_eq_succ_of_ne_zero (by omega)
    rw [depthItems] at hdepth
    cases items with
    | nil =>
      rw [printItems] at hfuel ⊢
      exact readItems_last (hitem (by omega) (by omega) (bounds_cons (.inr (.inl rfl))))
    | cons next more =>
      have hsplit : printItems (item :: next :: more) ++ ']' :: rest =
          item.print ++ ',' :: (printItems (next :: more) ++ ']' :: rest) := by
        simp [printItems]
      have hlength : (printItems (item :: next :: more)).length =
          item.print.length + (printItems (next :: more)).length + 1 := by
        simp [printItems]
        omega
      have hmore : Begins (printItems (next :: more)) :=
        begins_printItems (List.cons_ne_nil _ _) fun item hmem =>
          hexact item (List.mem_cons_of_mem _ hmem)
      rw [hsplit]
      exact readItems_cons (hitem (by omega) (by omega) (bounds_cons (.inl rfl)))
        (hmore.append _).skip_eq (ih (List.cons_ne_nil _ _)
          (fun item hmem => hexact item (List.mem_cons_of_mem _ hmem)) hitems (by omega) (by omega))

/-- Members are read back together with the brace that ends them. -/
theorem reads_members (hne : members ≠ []) (hexact : ∀ member ∈ members, member.2.Exact)
    (hreads : ∀ member ∈ members, member.2.ReadsBack)
    (hfuel : 2 * (printMembers members).length < fuel) (hdepth : depthMembers members ≤ d) :
    readMembers fuel d (printMembers members ++ '\x7d' :: rest) = some (members, rest) := by
  induction members generalizing fuel with
  | nil => exact absurd rfl hne
  | cons member members ih =>
    obtain ⟨key, value⟩ := member
    have hvalue : value.ReadsBack := hreads (key, value) List.mem_cons_self
    have hbegins : Begins value.print := (hexact (key, value) List.mem_cons_self).begins
    obtain ⟨fuel, rfl⟩ : ∃ f, fuel = f + 1 := Nat.exists_eq_succ_of_ne_zero (by omega)
    rw [depthMembers] at hdepth
    cases members with
    | nil =>
      rw [printMembers, List.length_append, List.length_cons] at hfuel
      rw [printMembers, List.append_assoc, List.cons_append]
      exact readMembers_last (hbegins.append _).skip_eq
        (hvalue (by omega) (by omega) (bounds_cons (.inr (.inr rfl))))
    | cons next more =>
      have hsplit : printMembers ((key, value) :: next :: more) ++ '\x7d' :: rest =
          printString key ++ ':' :: (value.print ++
            ',' :: (printMembers (next :: more) ++ '\x7d' :: rest)) := by
        simp [printMembers]
      have hlength : (printMembers ((key, value) :: next :: more)).length =
          (printString key).length + value.print.length + (printMembers (next :: more)).length
            + 2 := by
        simp [printMembers]
        omega
      obtain ⟨u, hu⟩ := begins_printMembers (List.cons_ne_nil next more)
      have hskip : skip (printMembers (next :: more) ++ '\x7d' :: rest) =
          printMembers (next :: more) ++ '\x7d' :: rest := by
        rw [hu]
        rfl
      rw [hsplit]
      exact readMembers_cons (hbegins.append _).skip_eq
        (hvalue (by omega) (by omega) (bounds_cons (.inl rfl))) hskip
        (ih (List.cons_ne_nil _ _) (fun member hmem => hexact member (List.mem_cons_of_mem _ hmem))
          (fun member hmem => hreads member (List.mem_cons_of_mem _ hmem)) (by omega) (by omega))

theorem Exact.exists_fuel (h : v.Exact) (hfuel : 2 * v.print.length ≤ fuel) :
    ∃ f, fuel = f + 1 := by
  obtain ⟨c, u, hprint, -⟩ := h.begins
  rw [hprint, List.length_cons] at hfuel
  exact Nat.exists_eq_succ_of_ne_zero (by omega)

/-- An array is read back if its items are. -/
theorem ReadsBack.array (hitems : ∀ item ∈ items, item.Exact)
    (hreads : ∀ item ∈ items, item.ReadsBack) : (array items).ReadsBack := by
  intro fuel d rest hfuel hdepth _
  obtain ⟨fuel, rfl⟩ := (Exact.array hitems).exists_fuel hfuel
  rw [depth] at hdepth
  obtain ⟨d, rfl⟩ : ∃ e, d = e + 1 := Nat.exists_eq_succ_of_ne_zero (by omega)
  rw [print, List.length_append, List.length_cons, List.length_singleton] at hfuel
  rw [print, List.append_assoc, List.cons_append, List.singleton_append]
  by_cases hne : items = []
  · subst hne
    rfl
  · have hbegins := (begins_printItems hne hitems).append (']' :: rest)
    rw [readValue_array hbegins.skip_eq hbegins.ne_closing,
      reads_items hne hitems hreads (by omega) (by omega)]
    rfl

/-- An object is read back if the values of its members are. -/
theorem ReadsBack.object (hmembers : ∀ member ∈ members, member.2.Exact)
    (hreads : ∀ member ∈ members, member.2.ReadsBack) : (object members).ReadsBack := by
  intro fuel d rest hfuel hdepth _
  obtain ⟨fuel, rfl⟩ := (Exact.object hmembers).exists_fuel hfuel
  rw [depth] at hdepth
  obtain ⟨d, rfl⟩ : ∃ e, d = e + 1 := Nat.exists_eq_succ_of_ne_zero (by omega)
  rw [print, List.length_append, List.length_cons, List.length_singleton] at hfuel
  rw [print, List.append_assoc, List.cons_append, List.singleton_append]
  by_cases hne : members = []
  · subst hne
    rfl
  · obtain ⟨u, hu⟩ := begins_printMembers hne
    have hread : readMembers fuel d (printMembers members ++ '\x7d' :: rest) =
        some (members, rest) := reads_members hne hmembers hreads (by omega) (by omega)
    rw [hu] at hread ⊢
    rw [List.cons_append] at hread ⊢
    rw [readValue_object rfl (by simp), hread]
    rfl

/-- **A value is read back.** -/
theorem Exact.readsBack (h : v.Exact) : v.ReadsBack := by
  induction h with
  | null =>
    intro fuel d rest hfuel _ _
    obtain ⟨fuel, rfl⟩ := Exact.null.exists_fuel hfuel
    rfl
  | bool b =>
    intro fuel d rest hfuel _ _
    obtain ⟨fuel, rfl⟩ := (Exact.bool b).exists_fuel hfuel
    cases b <;> rfl
  | @number n hn =>
    intro fuel d rest hfuel _ hrest
    obtain ⟨fuel, rfl⟩ := (Exact.number hn).exists_fuel hfuel
    obtain ⟨c, u, hprint, hc⟩ := hn.exists_print
    have hread := hn.read_print hrest
    rw [hprint, List.cons_append] at hread
    rw [print, hprint, List.cons_append, readValue_number hc, hread]
    rfl
  | string t =>
    intro fuel d rest hfuel _ _
    obtain ⟨fuel, rfl⟩ := (Exact.string t).exists_fuel hfuel
    exact readValue_string
  | array hitems ih => exact ReadsBack.array hitems ih
  | object hmembers ih => exact ReadsBack.object hmembers ih

/-- **A value is read back from its text**, if it is not nested too deeply to be read. -/
theorem Exact.read?_print (h : v.Exact) (hdepth : v.depth ≤ maxDepth) : read? v.print = some v := by
  have hread : readValue (2 * v.print.length + 1) maxDepth v.print = some (v, []) := by
    have hback : readValue (2 * v.print.length + 1) maxDepth (v.print ++ []) = some (v, []) :=
      h.readsBack (by omega) hdepth nofun
    rwa [List.append_nil] at hback
  rw [read?, h.begins.skip_eq, hread]
  rfl

/-! ## Numbers that are read -/

/-- What is read as a number is one, and what is read as an object has the members that are
read. -/
theorem readValue_cases (h : readValue fuel d t = some (v, rest)) :
    (∀ n, v = number n → Number.read t = some (n, rest)) ∧
    (∀ members, v = object members → members = [] ∨
      ∃ fuel d t, readMembers fuel d t = some (members, rest)) := by
  cases fuel with
  | zero => cases d <;> cases h
  | succ fuel =>
    rw [readValue.eq_def] at h
    dsimp only at h
    split at h
    · obtain ⟨r, -, hr⟩ := Option.map_eq_some_iff.mp h
      cases hr
      exact ⟨nofun, nofun⟩
    · split at h
      · cases h
      · cases h
        exact ⟨nofun, nofun⟩
      · obtain ⟨r, -, hr⟩ := Option.map_eq_some_iff.mp h
        cases hr
        exact ⟨nofun, nofun⟩
    · split at h
      · cases h
      · cases h
        exact ⟨nofun, fun _ heq => .inl (object.inj heq).symm⟩
      · obtain ⟨⟨members, behind⟩, hread, hr⟩ := Option.map_eq_some_iff.mp h
        cases hr
        refine ⟨nofun, fun members' heq => .inr ?_⟩
        cases heq
        exact ⟨_, _, _, hread⟩
    · split at h
      · cases h
        exact ⟨nofun, nofun⟩
      · cases h
        exact ⟨nofun, nofun⟩
      · cases h
        exact ⟨nofun, nofun⟩
      · obtain ⟨⟨n, behind⟩, hread, hr⟩ := Option.map_eq_some_iff.mp h
        cases hr
        refine ⟨fun n' heq => ?_, nofun⟩
        cases heq
        exact hread

/-- No natural number beyond 64 bits is read as a value. -/
theorem natural_of_readValue {n : Nat} (h : readValue fuel d t = some (ofNat n, rest)) :
    n < 2 ^ 64 :=
  Number.natural_of_read ((readValue_cases h).1 _ rfl)

theorem natural_of_readMembers {key : Text} {n : Nat}
    (h : readMembers fuel d t = some (members, rest)) (hmem : (key, ofNat n) ∈ members) :
    n < 2 ^ 64 := by
  induction fuel generalizing t members with
  | zero => cases h
  | succ fuel ih =>
    rw [readMembers.eq_def] at h
    dsimp only at h
    split at h
    · obtain ⟨⟨k, behind⟩, -, h⟩ := Option.bind_eq_some_iff.mp h
      dsimp only at h
      split at h
      · obtain ⟨⟨value, behind⟩, hvalue, h⟩ := Option.bind_eq_some_iff.mp h
        dsimp only at h
        split at h
        · cases h
          obtain ⟨rfl, rfl⟩ := Prod.mk.inj (List.mem_singleton.mp hmem)
          exact natural_of_readValue hvalue
        · obtain ⟨⟨later, behind⟩, hlater, h⟩ := Option.bind_eq_some_iff.mp h
          cases h
          rcases List.mem_cons.mp hmem with heq | hmem
          · obtain ⟨rfl, rfl⟩ := Prod.mk.inj heq
            exact natural_of_readValue hvalue
          · exact ih hlater hmem
        · cases h
      · cases h
    · cases h

/-- **A natural number that is read** as a member is within 64 bits. -/
theorem natural_of_read? {key : Text} {n : Nat} (h : read? t = some (object members))
    (hmem : (key, ofNat n) ∈ members) : n < 2 ^ 64 := by
  unfold read? at h
  split at h
  · next value rest hread =>
    split at h
    · cases h
      rcases (readValue_cases hread).2 members rfl with rfl | ⟨fuel, d, t, hmembers⟩
      · cases hmem
      · exact natural_of_readMembers hmembers hmem
    · cases h
  · cases h

end Workbench.Json
