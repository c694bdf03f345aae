import Workbench.Text.Offset

/-!
# Text/Utf8 — texts as bytes

`encode` writes a text in UTF-8 and `decode` reads it back.  Reading is strict: a sequence that is
cut off, longer than its character needs, or of a surrogate or a number beyond the last code point
makes the whole unreadable.
-/

namespace Workbench

/-- A sequence of bytes. -/
abbrev Bytes := List UInt8

namespace Text

/-- The UTF-8 form of a text. -/
def encode (t : Text) : Bytes := t.flatMap String.utf8EncodeChar

@[simp] theorem encode_append (s t : Text) : encode (s ++ t) = encode s ++ encode t := by
  simp [encode]

/-- **A text has as many bytes as its UTF-8 form.** -/
theorem length_encode (t : Text) : (encode t).length = bytes t := by
  induction t with
  | nil => rfl
  | cons c t ih => simp_all [encode, bytes]

/-- The six bits of a byte that continues a character. -/
def trailBits? (b : UInt8) : Option Nat :=
  if 0x80 ≤ b.toNat ∧ b.toNat < 0xC0 then some (b.toNat - 0x80) else none

/-- The character with a code point that needs as many bytes as it was written in: `least` is the
smallest such. -/
def scalar? (least code : Nat) : Option Char :=
  if least ≤ code ∧ code.isValidChar then some (Char.ofNat code) else none

/-- The text whose UTF-8 form is given. -/
def decode : Bytes → Option Text
  | [] => some []
  | a :: rest =>
    if a.toNat < 0x80 then return Char.ofNat a.toNat :: (← decode rest)
    else if a.toNat < 0xC0 then none
    else
      match rest with
      | [] => none
      | b :: rest =>
        if a.toNat < 0xE0 then do
          let c ← scalar? 0x80 ((a.toNat - 0xC0) * 64 + (← trailBits? b))
          return c :: (← decode rest)
        else
          match rest with
          | [] => none
          | c :: rest =>
            if a.toNat < 0xF0 then do
              let high := (a.toNat - 0xE0) * 64 + (← trailBits? b)
              let c ← scalar? 0x800 (high * 64 + (← trailBits? c))
              return c :: (← decode rest)
            else
              match rest with
              | [] => none
              | d :: rest => do
                let high := ((a.toNat - 0xF0) * 64 + (← trailBits? b)) * 64 + (← trailBits? c)
                let c ← scalar? 0x10000 (high * 64 + (← trailBits? d))
                return c :: (← decode rest)

end Text
end Workbench
