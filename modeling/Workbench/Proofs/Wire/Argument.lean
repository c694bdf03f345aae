import Workbench.Wire.Command

/-!
# Proofs/Wire/Argument — which arguments fit a command

The fields of a command are given by name, as members of an object, or by place, as the items of an
array.  A command with one field takes what that field takes (`oneField_eq_ok_iff`).  An indent takes
a start and, if there is one that is not null, an end: without it the start is the end as well
(`indentArguments_eq_ok_iff`).  Whatever does not fit is answered with a fault that names the field
that is missing, or what was found and what was expected in its place.
-/

namespace Workbench

/-! ## Steps that may fail -/

section Steps

variable {ε α β : Type} {x : Except ε α} {b : β}

/-- Two steps succeed if the first does, and then the second with what the first has given. -/
theorem Except.bind_eq_ok_iff {f : α → Except ε β} :
    (x >>= f) = .ok b ↔ ∃ a, x = .ok a ∧ f a = .ok b := by
  cases x <;> simp [bind, Except.bind]

theorem Except.map_toOption_eq_some_iff {f : α → β} :
    x.toOption.map f = some b ↔ ∃ a, x = .ok a ∧ f a = b := by
  cases x <;> simp [Except.toOption]

end Steps

namespace Command

variable {α : Type} {fields name : Text} {field : Json → Except ArgumentFault α}
  {arguments value : Json} {members : Json.Members} {a : α} {start stop : Nat}

/-! ## One field -/

/-- The one field of a command is given a value: under its name, or as the only item. -/
inductive Gives (name : Text) (value : Json) : Json → Prop
  | named {members : Json.Members} : members.lookup name = some value →
      Gives name value (.object members)
  | placed : Gives name value (.array [value])

/-- **A command with one field** takes what the field takes, by name or by place. -/
theorem oneField_eq_ok_iff : oneField fields name field arguments = .ok a ↔
    ∃ value, Gives name value arguments ∧ field value = .ok a := by
  constructor
  · intro h
    match arguments with
    | .object members =>
      rw [oneField] at h
      split at h
      · next value hvalue => exact ⟨value, .named hvalue, h⟩
      · cases h
    | .array [value] => exact ⟨value, .placed, h⟩
    | .array (value :: next :: more) =>
      obtain ⟨-, -, hmore⟩ := Except.bind_eq_ok_iff.mp h
      cases hmore
    | .array [] | .null | .bool _ | .number _ | .string _ => cases h
  · rintro ⟨value, hgives, hvalue⟩
    cases hgives with
    | named hmember =>
      rw [oneField, hmember]
      exact hvalue
    | placed => exact hvalue

/-- A field that is not among the members is reported by its name. -/
theorem oneField_of_missing (h : members.lookup name = none) :
    oneField fields name field (.object members) = .error (.missingField name) := by
  rw [oneField, h]

/-! ## Indents -/

/-- Where an indent ends that begins at `start`: there as well if its end is null, else at the
offset that is given. -/
inductive Ends (start : Nat) : Json → Nat → Prop
  | same : Ends start .null start
  | own (stop : Nat) : Ends start (.ofNat stop) stop

theorem ends_iff : Ends start value stop ↔
    ∃ offset, optionalOffset value = .ok offset ∧ offset.getD start = stop := by
  constructor
  · rintro (_ | _)
    · exact ⟨none, rfl, rfl⟩
    · exact ⟨some stop, rfl, rfl⟩
  · rintro ⟨offset, hoffset, rfl⟩
    rcases optionalOffset_eq_ok_iff.mp hoffset with ⟨rfl, rfl⟩ | ⟨n, rfl, rfl⟩
    · exact .same
    · exact .own n

/-- The arguments of an indent: an object with a `start`, whose `end` is null if it is left out, or
an array of the start and perhaps the end. -/
inductive Indents : Json → Nat → Nat → Prop
  | named {members : Json.Members} {start stop : Nat} :
      members.lookup "start".toList = some (.ofNat start) →
      Ends start ((members.lookup "end".toList).getD .null) stop →
      Indents (.object members) start stop
  | alone (start : Nat) : Indents (.array [.ofNat start]) start start
  | placed {start stop : Nat} {value : Json} : Ends start value stop →
      Indents (.array [.ofNat start, value]) start stop

theorem indentArguments_object {offset : Option Nat} (h : members.lookup "start".toList = some value)
    (hoffset : optionalOffset ((members.lookup "end".toList).getD .null) = .ok offset) :
    indentArguments (.object members) =
      (offsetField value).map fun start => (start, offset.getD start) := by
  rw [indentArguments, hoffset, h]
  show (offsetField value >>= fun start => Except.ok (start, offset.getD start)) = _
  cases offsetField value <;> rfl

/-- **An indent** takes a start, and an end that is the start if it is left out or null. -/
theorem indentArguments_eq_ok_iff :
    indentArguments arguments = .ok (start, stop) ↔ Indents arguments start stop := by
  constructor
  · intro h
    match arguments with
    | .object members =>
      obtain ⟨offset, hoffset, h⟩ := Except.bind_eq_ok_iff.mp h
      split at h
      · next value hmember =>
        obtain ⟨n, hn, h⟩ := Except.bind_eq_ok_iff.mp h
        obtain ⟨rfl, hstop⟩ := Prod.mk.inj (Except.ok.inj h)
        rw [offsetField_eq_ok_iff.mp hn] at hmember
        exact .named hmember (ends_iff.mpr ⟨offset, hoffset, hstop⟩)
      · cases h
    | .array [value] =>
      obtain ⟨n, hn, h⟩ := Except.bind_eq_ok_iff.mp h
      obtain ⟨rfl, rfl⟩ := Prod.mk.inj (Except.ok.inj h)
      rw [offsetField_eq_ok_iff.mp hn]
      exact .alone n
    | .array (first :: value :: more) =>
      obtain ⟨n, hn, h⟩ := Except.bind_eq_ok_iff.mp h
      obtain ⟨offset, hoffset, h⟩ := Except.bind_eq_ok_iff.mp h
      split at h
      · next hmore =>
        obtain ⟨rfl, hstop⟩ := Prod.mk.inj (Except.ok.inj h)
        rw [offsetField_eq_ok_iff.mp hn, hmore]
        exact .placed (ends_iff.mpr ⟨offset, hoffset, hstop⟩)
      · cases h
    | .array [] | .null | .bool _ | .number _ | .string _ => cases h
  · rintro (⟨hstart, hends⟩ | _ | hends)
    · obtain ⟨offset, hoffset, rfl⟩ := ends_iff.mp hends
      rw [indentArguments_object hstart hoffset]
      rfl
    · rfl
    · obtain ⟨offset, hoffset, rfl⟩ := ends_iff.mp hends
      rw [indentArguments, offsetField_eq_ok_iff.mpr rfl, hoffset]
      rfl

/-- A start that is not among the members is reported by its name, if the end fits. -/
theorem indentArguments_of_missing (h : members.lookup "start".toList = none)
    (hends : Ends start ((members.lookup "end".toList).getD .null) stop) :
    indentArguments (.object members) = .error (.missingField "start") := by
  obtain ⟨offset, hoffset, -⟩ := ends_iff.mp hends
  rw [indentArguments, hoffset, h]
  rfl

/-- A start that is no offset is reported as what it is, if the end fits. -/
theorem indentArguments_of_wrong (h : members.lookup "start".toList = some value)
    (hvalue : ∀ n, value ≠ .ofNat n)
    (hends : Ends start ((members.lookup "end".toList).getD .null) stop) :
    indentArguments (.object members) = .error (.wrongType (found value) "usize") ∨
      indentArguments (.object members) = .error (.wrongValue (found value) "usize") := by
  obtain ⟨offset, hoffset, -⟩ := ends_iff.mp hends
  rw [indentArguments_object h hoffset]
  rcases offsetField_of_ne hvalue with hfault | hfault
  · rw [hfault]
    exact .inl rfl
  · rw [hfault]
    exact .inr rfl

/-- **Arguments that do not fit** an indent are answered with a fault, and no others are. -/
theorem exists_fault_iff : (∃ fault, indentArguments arguments = .error fault) ↔
    ∀ start stop, ¬ Indents arguments start stop := by
  simp only [← indentArguments_eq_ok_iff]
  cases indentArguments arguments with
  | error fault => simp
  | ok range => exact iff_of_false nofun fun h => h range.1 range.2 rfl

end Command
end Workbench
