import Workbench.Wire.Message

/-!
# Wire/Command — what a client can ask for

A command has a name and arguments.  Arguments are an object, or an array of the same fields in
order; a field that does not fit is reported as what was found and what was expected.
-/

namespace Workbench

/-- What a client asks for. -/
inductive Command
  /-- To be told about the workbench. -/
  | introduce
  | run
  | clear
  | switchLanguage (language : Language)
  | edit (text : Text)
  | insertIndent (start stop : Nat)
  | highlight
  | state
  | disconnect
  | unknown (name : Text)
  deriving DecidableEq, Repr

namespace Command

/-- A value as a fault names it. -/
def found : Json → Text
  | .null => "null"
  | .bool true => "boolean `true`"
  | .bool false => "boolean `false`"
  | .number (.real isNegative value) =>
    "floating point `" ++ (Json.Number.real isNegative value).print ++ "`"
  | .number n => "integer `" ++ n.print ++ "`"
  | .string t => "string " ++ Text.quoted t
  | .array _ => "sequence"
  | .object _ => "map"

/-! ## Fields -/

/-- A field that holds a text. -/
def textField : Json → Except ArgumentFault Text
  | .string t => .ok t
  | value => .error (.wrongType (found value) "a string")

theorem textField_eq_ok_iff {value : Json} {t : Text} :
    textField value = .ok t ↔ value = .string t := by
  cases value <;> simp [textField]

/-- What is no text is reported as what it is. -/
theorem textField_of_ne {value : Json} (h : ∀ t, value ≠ .string t) :
    textField value = .error (.wrongType (found value) "a string") := by
  cases value with
  | string t => exact absurd rfl (h t)
  | null | bool | number | array | object => rfl

/-- A field that holds an offset. -/
def offsetField : Json → Except ArgumentFault Nat
  | .number (.natural n) => .ok n
  | .number (.negative n) =>
    .error (.wrongValue (found (.number (.negative n))) "usize")
  | value => .error (.wrongType (found value) "usize")

/-- An offset is a natural number. -/
theorem offsetField_eq_ok_iff {value : Json} {n : Nat} :
    offsetField value = .ok n ↔ value = .ofNat n := by
  unfold offsetField Json.ofNat
  split <;> simp_all

/-- What is no offset is reported as what it is. -/
theorem offsetField_of_ne {value : Json} (h : ∀ n, value ≠ .ofNat n) :
    offsetField value = .error (.wrongType (found value) "usize") ∨
      offsetField value = .error (.wrongValue (found value) "usize") := by
  match value with
  | .number (.natural n) => exact absurd rfl (h n)
  | .number (.negative _) => exact .inr rfl
  | .number (.real _ _) | .null | .bool _ | .string _ | .array _ | .object _ => exact .inl rfl

/-- An offset that may be null. -/
def optionalOffset : Json → Except ArgumentFault (Option Nat)
  | .null => .ok none
  | value => (offsetField value).map some

/-- Null stands for no offset. -/
theorem optionalOffset_eq_ok_iff {value : Json} {offset : Option Nat} :
    optionalOffset value = .ok offset ↔
      value = .null ∧ offset = none ∨ ∃ n, value = .ofNat n ∧ offset = some n := by
  match value with
  | .number (.natural n) => simp [optionalOffset, offsetField, Json.ofNat, Except.map, eq_comm]
  | .null => simp [optionalOffset, Json.ofNat, eq_comm]
  | .number (.negative _) | .number (.real _ _) | .bool _ | .string _ | .array _ | .object _ =>
    simp [optionalOffset, offsetField, Json.ofNat, Except.map]

/-- The language of a tag. -/
def languageOf (tag : Text) : Except ArgumentFault Language :=
  match Language.ofTag? tag with
  | some l => .ok l
  | none => .error (.unknownLanguage tag)

theorem languageOf_eq_ok_iff {tag : Text} {l : Language} : languageOf tag = .ok l ↔ tag = l.tag := by
  rw [languageOf, ← Language.ofTag?_eq_some_iff]
  cases Language.ofTag? tag <;> simp

/-- A language is its tag, or an object with its tag as the only key, whose value is null. -/
def languageField : Json → Except ArgumentFault Language
  | .string tag => languageOf tag
  | .object [(tag, value)] => do
    let l ← languageOf tag
    match value with
    | .null => .ok l
    | value => .error (.wrongType (found value) "unit")
  | .object _ => .error (.wrongValue "map" "map with a single key")
  | value => .error (.wrongType (found value) "string or map")

/-- A language is given by its tag, alone or as a key. -/
theorem languageField_eq_ok_iff {value : Json} {l : Language} :
    languageField value = .ok l ↔ value = .string l.tag ∨ value = .object [(l.tag, .null)] := by
  constructor
  · intro h
    match value with
    | .string tag => exact .inl (congrArg Json.string (languageOf_eq_ok_iff.mp h))
    | .object [(tag, value)] =>
      cases hl : languageOf tag with
      | error fault => simp [languageField, hl, bind, Except.bind] at h
      | ok l' =>
        cases value <;> simp [languageField, hl, bind, Except.bind] at h
        obtain rfl := h
        exact .inr (by rw [languageOf_eq_ok_iff.mp hl])
    | .object [] | .object (_ :: _ :: _) | .null | .bool _ | .number _ | .array _ => cases h
  · rintro (rfl | rfl)
    · exact languageOf_eq_ok_iff.mpr rfl
    · rw [languageField, languageOf_eq_ok_iff.mpr rfl]
      rfl

/-! ## Arguments -/

/-- The arguments of a command with one field. -/
def oneField {α : Type} (fields name : Text) (field : Json → Except ArgumentFault α) :
    Json → Except ArgumentFault α
  | .object members =>
    match members.lookup name with
    | some value => field value
    | none => .error (.missingField name)
  | .array [] => .error (.noElements (fields ++ " with 1 element"))
  | .array [value] => field value
  | .array (value :: more) => do
    let _ ← field value
    .error (.extraElements (more.length + 1))
  | value => .error (.wrongType (found value) fields)

/-- The arguments of an indent: `start`, and `end`, which is `start` if it is left out.  The fields
of an object are read in order of their names. -/
def indentArguments : Json → Except ArgumentFault (Nat × Nat)
  | .object members => do
    let stop ← optionalOffset ((members.lookup "end".toList).getD .null)
    match members.lookup "start".toList with
    | some value =>
      let start ← offsetField value
      .ok (start, stop.getD start)
    | none => .error (.missingField "start")
  | .array [] => .error (.noElements "struct InsertIndentArguments with 2 elements")
  | .array [start] => do
    let start ← offsetField start
    .ok (start, start)
  | .array (start :: stop :: more) => do
    let start ← offsetField start
    let stop ← optionalOffset stop
    if more = [] then .ok (start, stop.getD start) else .error (.extraElements (more.length + 2))
  | value => .error (.wrongType (found value) "struct InsertIndentArguments")

/-- The command of a name, with its arguments. -/
def read (name : Text) (arguments : Option Json) : Except ArgumentFault Command :=
  let arguments := arguments.getD .null
  match String.ofList name with
  | "initialize" => .ok introduce
  | "run" => .ok run
  | "clear" => .ok clear
  | "switchLanguage" =>
    switchLanguage <$> oneField "struct SwitchLanguageArguments" "language" languageField arguments
  | "edit" => edit <$> oneField "struct EditArguments" "text" textField arguments
  | "insertIndent" => (fun (start, stop) => insertIndent start stop) <$> indentArguments arguments
  | "highlight" => .ok highlight
  | "state" => .ok state
  | "disconnect" => .ok disconnect
  | _ => .ok (unknown name)

end Command
end Workbench
