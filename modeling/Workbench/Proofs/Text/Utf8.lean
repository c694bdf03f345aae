import Workbench.Text.Utf8

/-!
# Proofs/Text/Utf8 — reading and writing UTF-8 are inverse

`decode` gives back what `encode` wrote, in front of whatever follows (`decode_encode_append`), and
reads nothing else (`decode_eq_some_iff`).  A byte of the ASCII range stands for its character alone
(`exists_of_encode_eq_append_cons`), so a search for ASCII marks may run over the bytes.
-/

namespace Workbench.Text

variable {a b c d : UInt8} {rest : Bytes}

/-! ## Reading, by the lead byte

The lead byte alone decides how many bytes follow it. -/

/-- A lead byte of the ASCII range is a character of its own. -/
theorem decode_one (h : a.toNat < 0x80) :
    decode (a :: rest) = (decode rest).map (Char.ofNat a.toNat :: ·) := by
  rw [decode.eq_def]
  simp only [if_pos h]
  cases decode rest <;> rfl

/-- Behind a lead byte from `0xC0` on one byte more belongs to the character. -/
theorem decode_two (h : 0xC0 ≤ a.toNat) (h' : a.toNat < 0xE0) :
    decode (a :: b :: rest) = (trailBits? b).bind fun x =>
      (scalar? 0x80 ((a.toNat - 0xC0) * 64 + x)).bind fun c => (decode rest).map (c :: ·) := by
  rw [decode.eq_def]
  simp only
  rw [if_neg (by omega), if_neg (by omega), if_pos h']
  cases trailBits? b with
  | none => rfl
  | some x => cases decode rest <;> rfl

/-- Behind a lead byte from `0xE0` on two bytes more belong to the character. -/
theorem decode_three (h : 0xE0 ≤ a.toNat) (h' : a.toNat < 0xF0) :
    decode (a :: b :: c :: rest) = (trailBits? b).bind fun x => (trailBits? c).bind fun y =>
      (scalar? 0x800 (((a.toNat - 0xE0) * 64 + x) * 64 + y)).bind fun c =>
        (decode rest).map (c :: ·) := by
  rw [decode.eq_def]
  simp only
  rw [if_neg (by omega), if_neg (by omega), if_neg (by omega), if_pos h']
  cases trailBits? b with
  | none => rfl
  | some x =>
    cases trailBits? c with
    | none => rfl
    | some y => cases decode rest <;> rfl

/-- Behind a lead byte from `0xF0` on three bytes more belong to the character. -/
theorem decode_four (h : 0xF0 ≤ a.toNat) :
    decode (a :: b :: c :: d :: rest) = (trailBits? b).bind fun x => (trailBits? c).bind fun y =>
      (trailBits? d).bind fun z =>
        (scalar? 0x10000 ((((a.toNat - 0xF0) * 64 + x) * 64 + y) * 64 + z)).bind fun c =>
          (decode rest).map (c :: ·) := by
  rw [decode.eq_def]
  simp only
  rw [if_neg (by omega), if_neg (by omega), if_neg (by omega), if_neg (by omega)]
  cases trailBits? b with
  | none => rfl
  | some x =>
    cases trailBits? c with
    | none => rfl
    | some y =>
      cases trailBits? d with
      | none => rfl
      | some z => cases decode rest <;> rfl

/-- A byte that continues a character begins none. -/
theorem decode_trail (h : 0x80 ≤ a.toNat) (h' : a.toNat < 0xC0) : decode (a :: rest) = none := by
  rw [decode.eq_def]
  simp only
  rw [if_neg (by omega), if_pos h']

/-! ## The parts of a character -/

theorem toNat_byte {n : Nat} (h : n < 256) : (UInt8.ofNat n).toNat = n := UInt8.toNat_ofNat_of_lt' h

theorem eq_byte {n : Nat} (h : a.toNat = n) : a = UInt8.ofNat n := by rw [← h, UInt8.ofNat_toNat]

/-- Six bits are read back from the byte that carries them. -/
theorem trailBits?_byte {n : Nat} (h : n < 64) : trailBits? (UInt8.ofNat (n + 0x80)) = some n := by
  rw [trailBits?, toNat_byte (by omega), if_pos (by omega), Nat.add_sub_cancel]

/-- Only the byte that carries six bits gives them. -/
theorem eq_of_trailBits? {n : Nat} (h : trailBits? a = some n) :
    n < 64 ∧ a = UInt8.ofNat (n + 0x80) := by
  rw [trailBits?] at h
  split at h
  · next ha =>
    obtain rfl : a.toNat - 0x80 = n := Option.some.inj h
    exact ⟨by omega, eq_byte (by omega)⟩
  · cases h

/-- A character is found under its code point, if that needs the bytes it was written in. -/
theorem scalar?_of_eq {least code : Nat} {c : Char} (h : least ≤ code) (hc : code = c.toNat) :
    scalar? least code = some c := by
  subst hc
  rw [scalar?, if_pos ⟨h, c.valid⟩, Char.ofNat_toNat]

theorem toNat_ofNat {n : Nat} (h : n.isValidChar) : (Char.ofNat n).toNat = n := by
  rw [Char.ofNat, dif_pos h]
  rfl

/-- Only the code point of a character gives it, and never in more bytes than it needs. -/
theorem eq_of_scalar? {least code : Nat} {c : Char} (h : scalar? least code = some c) :
    least ≤ code ∧ c.toNat = code := by
  rw [scalar?] at h
  split at h
  · next hle =>
    obtain rfl : Char.ofNat code = c := Option.some.inj h
    exact ⟨hle.1, toNat_ofNat hle.2⟩
  · cases h

@[simp] theorem encode_nil : encode [] = [] := rfl

/-- A text is written character by character. -/
theorem encode_cons (c : Char) (t : Text) :
    encode (c :: t) = String.utf8EncodeChar c ++ encode t := by simp [encode]

/-! ## What is written is read back -/

/-- Reading takes the character that was written off the front. -/
theorem decode_utf8EncodeChar_append (c : Char) (rest : Bytes) :
    decode (String.utf8EncodeChar c ++ rest) = (decode rest).map (c :: ·) := by
  have hc : c.toNat < 0x110000 := by
    have : c.toNat < 0xd800 ∨ 0xdfff < c.toNat ∧ c.toNat < 0x110000 := c.valid
    omega
  unfold String.utf8EncodeChar
  simp only [Char.toNat_val]
  split
  · have ha := toNat_byte (n := c.toNat) (by omega)
    rw [List.cons_append, List.nil_append, decode_one (by omega), ha, Char.ofNat_toNat]
  split
  · have ha := toNat_byte (n := c.toNat / 64 % 0x20 + 0xc0) (by omega)
    rw [List.cons_append, List.cons_append, List.nil_append, decode_two (by omega) (by omega), ha,
      trailBits?_byte (by omega), Option.bind_some, scalar?_of_eq (c := c) (by omega) (by omega),
      Option.bind_some]
  split
  · have ha := toNat_byte (n := c.toNat / 4096 % 0x10 + 0xe0) (by omega)
    rw [List.cons_append, List.cons_append, List.cons_append, List.nil_append,
      decode_three (by omega) (by omega), ha, trailBits?_byte (by omega), Option.bind_some,
      trailBits?_byte (by omega), Option.bind_some, scalar?_of_eq (c := c) (by omega) (by omega),
      Option.bind_some]
  · have ha := toNat_byte (n := c.toNat / 262144 % 0x08 + 0xf0) (by omega)
    rw [List.cons_append, List.cons_append, List.cons_append, List.cons_append, List.nil_append,
      decode_four (by omega), ha, trailBits?_byte (by omega), Option.bind_some,
      trailBits?_byte (by omega), Option.bind_some, trailBits?_byte (by omega), Option.bind_some,
      scalar?_of_eq (c := c) (by omega) (by omega), Option.bind_some]

/-- **What was written is read back**, and what follows it is read on its own. -/
theorem decode_encode_append (t : Text) (rest : Bytes) :
    decode (encode t ++ rest) = (decode rest).map (t ++ ·) := by
  induction t with
  | nil => simp
  | cons c t ih =>
    rw [encode_cons, List.append_assoc, decode_utf8EncodeChar_append, ih, Option.map_map]
    rfl

/-- A text is read back from its UTF-8 form. -/
@[simp] theorem decode_encode (t : Text) : decode (encode t) = some t := by
  simpa [decode] using decode_encode_append t []

/-! ## Nothing else is read -/

/-- Reading is strict: bytes are read as a text only if they are its UTF-8 form. -/
theorem eq_encode_of_decode {input : Bytes} {t : Text} (h : decode input = some t) :
    input = encode t := by
  fun_induction decode input generalizing t with
  | case1 =>
    obtain rfl : [] = t := Option.some.inj h
    rfl
  | case2 a rest ha ih =>
    obtain ⟨t', ht, h⟩ := Option.bind_eq_some_iff.mp h
    obtain rfl : Char.ofNat a.toNat :: t' = t := Option.some.inj h
    have hc : (Char.ofNat a.toNat).toNat = a.toNat := toNat_ofNat (Or.inl (by omega))
    rw [encode_cons, ← ih ht, String.utf8EncodeChar]
    simp only [Char.toNat_val, hc]
    rw [if_pos (by omega), ← eq_byte rfl]
    rfl
  | case5 a _ _ b rest _ ih =>
    obtain ⟨x, hx, h⟩ := Option.bind_eq_some_iff.mp h
    obtain ⟨c, hc, h⟩ := Option.bind_eq_some_iff.mp h
    obtain ⟨t', ht, h⟩ := Option.bind_eq_some_iff.mp h
    obtain rfl : c :: t' = t := Option.some.inj h
    obtain ⟨hx, rfl⟩ := eq_of_trailBits? hx
    obtain ⟨_, hc⟩ := eq_of_scalar? hc
    rw [encode_cons, ← ih ht, String.utf8EncodeChar]
    simp only [Char.toNat_val]
    rw [if_neg (by omega), if_pos (by omega), show c.toNat % 0x40 = x by omega,
      ← eq_byte (show a.toNat = c.toNat / 64 % 0x20 + 0xc0 by omega)]
    rfl
  | case7 a _ _ b _ c rest _ ih =>
    obtain ⟨x, hx, h⟩ := Option.bind_eq_some_iff.mp h
    obtain ⟨y, hy, h⟩ := Option.bind_eq_some_iff.mp h
    obtain ⟨c, hc, h⟩ := Option.bind_eq_some_iff.mp h
    obtain ⟨t', ht, h⟩ := Option.bind_eq_some_iff.mp h
    obtain rfl : c :: t' = t := Option.some.inj h
    obtain ⟨hx, rfl⟩ := eq_of_trailBits? hx
    obtain ⟨hy, rfl⟩ := eq_of_trailBits? hy
    obtain ⟨_, hc⟩ := eq_of_scalar? hc
    rw [encode_cons, ← ih ht, String.utf8EncodeChar]
    simp only [Char.toNat_val]
    rw [if_neg (by omega), if_neg (by omega), if_pos (by omega),
      show c.toNat / 64 % 0x40 = x by omega, show c.toNat % 0x40 = y by omega,
      ← eq_byte (show a.toNat = c.toNat / 4096 % 0x10 + 0xe0 by omega)]
    rfl
  | case9 a _ _ b _ c _ d rest ih =>
    obtain ⟨x, hx, h⟩ := Option.bind_eq_some_iff.mp h
    obtain ⟨y, hy, h⟩ := Option.bind_eq_some_iff.mp h
    obtain ⟨z, hz, h⟩ := Option.bind_eq_some_iff.mp h
    obtain ⟨c, hc, h⟩ := Option.bind_eq_some_iff.mp h
    obtain ⟨t', ht, h⟩ := Option.bind_eq_some_iff.mp h
    obtain rfl : c :: t' = t := Option.some.inj h
    obtain ⟨hx, rfl⟩ := eq_of_trailBits? hx
    obtain ⟨hy, rfl⟩ := eq_of_trailBits? hy
    obtain ⟨hz, rfl⟩ := eq_of_trailBits? hz
    obtain ⟨_, hc⟩ := eq_of_scalar? hc
    have hmax : c.toNat < 0xd800 ∨ 0xdfff < c.toNat ∧ c.toNat < 0x110000 := c.valid
    rw [encode_cons, ← ih ht, String.utf8EncodeChar]
    simp only [Char.toNat_val]
    rw [if_neg (by omega), if_neg (by omega), if_neg (by omega),
      show c.toNat / 4096 % 0x40 = x by omega, show c.toNat / 64 % 0x40 = y by omega,
      show c.toNat % 0x40 = z by omega,
      ← eq_byte (show a.toNat = c.toNat / 262144 % 0x08 + 0xf0 by omega)]
    rfl
  | case3 | case4 | case6 | case8 => cases h

/-- **A text has one UTF-8 form**, and only from that it is read. -/
theorem decode_eq_some_iff {input : Bytes} {t : Text} : decode input = some t ↔ input = encode t :=
  ⟨eq_encode_of_decode, fun h => h ▸ decode_encode t⟩

/-- A form that begins with the form of a text is of a text that begins with it. -/
theorem exists_of_encode_eq_append {t s : Text} {rest : Bytes} (h : encode t = encode s ++ rest) :
    ∃ u, t = s ++ u ∧ rest = encode u := by
  have hdecode : (decode rest).map (s ++ ·) = some t := by
    rw [← decode_encode_append, ← h, decode_encode]
  obtain ⟨u, hu, rfl⟩ := Option.map_eq_some_iff.mp hdecode
  exact ⟨u, rfl, eq_encode_of_decode hu⟩

/-! ## Bytes of the ASCII range -/

/-- The form of a character: a first byte, of the ASCII range only if it is the only one, and bytes
that continue. -/
theorem exists_utf8EncodeChar (c : Char) :
    ∃ lead tail, String.utf8EncodeChar c = lead :: tail ∧
      (lead.toNat < 0x80 → tail = [] ∧ c.toNat = lead.toNat) ∧
      ∀ a ∈ tail, 0x80 ≤ a.toNat ∧ a.toNat < 0xC0 := by
  have htrail (n : Nat) (a : UInt8) (h : a = UInt8.ofNat (n % 0x40 + 0x80)) :
      0x80 ≤ a.toNat ∧ a.toNat < 0xC0 := by
    rw [h, toNat_byte (by omega)]
    omega
  unfold String.utf8EncodeChar
  simp only [Char.toNat_val]
  split
  · exact ⟨_, _, rfl, fun _ => ⟨rfl, (toNat_byte (by omega)).symm⟩, by simp⟩
  split
  · refine ⟨_, _, rfl, fun h => ?_, fun a ha => ?_⟩
    · rw [toNat_byte (by omega)] at h
      omega
    · obtain rfl := List.mem_singleton.mp ha
      exact htrail _ _ rfl
  split
  · refine ⟨_, _, rfl, fun h => ?_, fun a ha => ?_⟩
    · rw [toNat_byte (by omega)] at h
      omega
    · simp only [List.mem_cons, List.not_mem_nil, or_false] at ha
      rcases ha with rfl | rfl <;> exact htrail _ _ rfl
  · refine ⟨_, _, rfl, fun h => ?_, fun a ha => ?_⟩
    · rw [toNat_byte (by omega)] at h
      omega
    · simp only [List.mem_cons, List.not_mem_nil, or_false] at ha
      rcases ha with rfl | rfl | rfl <;> exact htrail _ _ rfl

/-- An ASCII byte in the form of a text is a character of the text. -/
theorem exists_of_encode_eq_append_cons {t : Text} {before after : Bytes} {c : Char}
    (hc : c.toNat < 0x80) (h : encode t = before ++ UInt8.ofNat c.toNat :: after) :
    ∃ s u, t = s ++ c :: u ∧ before = encode s ∧ after = encode u := by
  induction t generalizing before with
  | nil => simp at h
  | cons d t ih =>
    obtain ⟨lead, tail, hd, hlead, htail⟩ := exists_utf8EncodeChar d
    have hbyte : (UInt8.ofNat c.toNat).toNat = c.toNat := toNat_byte (by omega)
    rw [encode_cons] at h
    rcases List.append_eq_append_iff.mp h with ⟨before', rfl, ht⟩ | ⟨form, hform, ht⟩
    · obtain ⟨s, u, rfl, rfl, rfl⟩ := ih ht
      exact ⟨d :: s, u, rfl, (encode_cons d s).symm, rfl⟩
    cases form with
    | nil =>
      obtain ⟨s, u, rfl, hs, rfl⟩ := @ih [] ht.symm
      refine ⟨d :: s, u, rfl, ?_, rfl⟩
      rw [encode_cons, ← hs, hform]
      simp
    | cons b form =>
      obtain ⟨rfl, ht⟩ := List.cons_eq_cons.mp ht
      rw [hd] at hform
      cases before with
      | nil =>
        obtain ⟨rfl, rfl⟩ := List.cons_eq_cons.mp hform
        obtain ⟨rfl, hcode⟩ := hlead (by omega)
        obtain rfl : d = c := Char.toNat_inj.mp (by omega)
        exact ⟨[], t, rfl, rfl, by simpa using ht⟩
      | cons b before =>
        -- the byte would stand behind the first one of `d`
        obtain ⟨-, rfl⟩ := List.cons_eq_cons.mp hform
        have := htail (UInt8.ofNat c.toNat) (by simp)
        omega

/-- No character is written in no bytes. -/
theorem encode_eq_nil {t : Text} : encode t = [] ↔ t = [] := by
  refine ⟨fun h => ?_, fun h => h ▸ encode_nil⟩
  cases t with
  | nil => rfl
  | cons c t =>
    obtain ⟨lead, tail, hc, -⟩ := exists_utf8EncodeChar c
    rw [encode_cons, hc] at h
    cases h

/-- A byte 10 is a line feed, wherever it stands. -/
theorem feed_mem_encode {t : Text} : 10 ∈ encode t ↔ '\n' ∈ t := by
  constructor
  · intro h
    obtain ⟨before, after, h⟩ := List.append_of_mem h
    obtain ⟨s, u, rfl, -⟩ := exists_of_encode_eq_append_cons (c := '\n') (by decide) h
    simp
  · intro h
    obtain ⟨s, u, rfl⟩ := List.append_of_mem h
    rw [encode_append, encode_cons]
    exact List.mem_append_right _ (List.mem_append_left _ (by decide))

/-- A text whose form ends in the byte 10 ends in a line feed. -/
theorem feed_suffix_of_encode {t : Text} (h : [10] <:+ encode t) : ['\n'] <:+ t := by
  obtain ⟨before, h⟩ := h
  obtain ⟨s, u, rfl, -, hu⟩ := exists_of_encode_eq_append_cons (c := '\n') (by decide) h.symm
  rw [encode_eq_nil.mp hu.symm]
  exact List.suffix_append _ _

theorem bytes_replicate (n : Nat) (c : Char) : bytes (List.replicate n c) = n * c.utf8Size := by
  induction n with
  | zero => rw [List.replicate_zero, bytes, Nat.zero_mul]
  | succ n ih => rw [List.replicate_succ, bytes, ih, Nat.succ_mul, Nat.add_comm]

/-! ## Cuts -/

/-- A cut in the form of a text that is not between two characters leaves a byte that continues
one in front. -/
theorem exists_of_drop_encode {t : Text} {n : Nat} (hn : n ≤ bytes t) :
    (∃ s u, t = s ++ u ∧ bytes s = n) ∨
      ∃ a rest, (encode t).drop n = a :: rest ∧ 0x80 ≤ a.toNat ∧ a.toNat < 0xC0 := by
  induction t generalizing n with
  | nil => exact .inl ⟨[], [], rfl, (Nat.le_zero.mp hn).symm⟩
  | cons c t ih =>
    rw [bytes] at hn
    by_cases hc : c.utf8Size ≤ n
    · have hdrop : (encode (c :: t)).drop n = (encode t).drop (n - c.utf8Size) := by
        rw [encode_cons, List.drop_append, String.length_utf8EncodeChar,
          List.drop_eq_nil_of_le (by rw [String.length_utf8EncodeChar]; exact hc), List.nil_append]
      rw [hdrop]
      rcases ih (n := n - c.utf8Size) (by omega) with ⟨s, u, rfl, hs⟩ | h
      · exact .inl ⟨c :: s, u, rfl, by rw [bytes]; omega⟩
      · exact .inr h
    by_cases h0 : n = 0
    · exact .inl ⟨[], c :: t, rfl, h0.symm⟩
    · obtain ⟨lead, tail, hform, -, htail⟩ := exists_utf8EncodeChar c
      have hlength : tail.length + 1 = c.utf8Size := by
        rw [← String.length_utf8EncodeChar, hform, List.length_cons]
      obtain ⟨m, rfl⟩ := Nat.exists_eq_succ_of_ne_zero h0
      have hm : m < tail.length := by omega
      refine .inr ⟨tail[m], tail.drop (m + 1) ++ encode t, ?_, htail _ (List.getElem_mem hm)⟩
      rw [encode_cons, hform, List.cons_append, List.drop_succ_cons,
        List.drop_append_of_le_length (by omega), List.drop_eq_getElem_cons hm, List.cons_append]

end Workbench.Text
