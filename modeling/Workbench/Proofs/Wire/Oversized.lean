import Workbench.Proofs.Wire.Veil

/-!
# Proofs/Wire/Oversized — what is lost behind a header that announces too much

An oversized header gives a fault, and as many bytes as it announces are passed over, or all that
are left (`readMessage_full`).  Whatever these bytes hold is lost.  So the next message is found
only if it begins behind them, and if they end between two characters of what stands in front of it
(`resumes_iff`).
-/

namespace Workbench.Wire

/-- A header that announces a body longer than any may be. -/
structure Oversized extends Header where
  length : Nat
  announces : toHeader.length? = some length
  beyond : maxBody < length

namespace Oversized

/-- The fault of an oversized header. -/
def fault (h : Oversized) : Error :=
  .protocol ("message of " ++ Text.ofNat h.length ++ " bytes exceeds the " ++
    Text.ofNat maxBody ++ " byte limit")

/-- The oversized header that a message would be written with. -/
def ofLength (n : Nat) (h : n < 2 ^ 64) (h' : maxBody < n) : Oversized where
  toHeader := .ofLength n
  length := n
  announces := Header.length?_ofLength h
  beyond := h'

/-- An oversized header gives one fault, and the bytes of its body are passed over, as far as they
go. -/
theorem readMessage_full (h : Oversized) (rest : Bytes) :
    readMessage (Text.encode h.full ++ rest) = some (.error h.fault, rest.drop h.length) := by
  have hlength : readLength (Text.trim h.value.text) = .ok h.length := by
    have hcount : Text.count? (Text.trim h.value.text) = some h.length := h.announces
    rw [readLength, hcount]
  have hheader := h.readHeader_full unmarked_nil rest
  rw [List.nil_append, hlength] at hheader
  rw [readMessage, hheader]
  simp only [readBody]
  rw [if_pos h.beyond]
  rfl

end Oversized

/-! ## Where reading goes on -/

/-- A byte that continues a character is no beginning of a message. -/
theorem readMessage_trail {a : UInt8} (h : 0x80 ≤ a.toNat) (h' : a.toNat < 0xC0) (rest : Bytes) :
    readMessage (a :: rest) = some (.error (.stream .notUtf8), []) := by
  have hfeed : a ≠ 10 := by
    rintro rfl
    exact absurd h (by decide)
  have hline : Text.decode (takeLine (a :: rest)).1 = none := by
    rw [takeLine, if_neg hfeed]
    exact Text.decode_trail h h'
  rw [readMessage, readHeader, hline]

variable {junk : Text} {f : Frame} {m : Message}

/-- A message is found behind a cut through the junk in front of it or through itself only if the
cut goes through the junk, between two characters of it. -/
theorem exists_of_readMessage_drop (hbody : Message.decode f.body = .ok m) {n : Nat} {m' : Message}
    {behind : Bytes}
    (h : readMessage ((Text.encode junk ++ f.bytes).drop n) = some (.ok m', behind)) :
    ∃ before after, junk = before ++ after ∧ Text.bytes before = n := by
  have hsize : (Text.encode junk).length = Text.bytes junk := Text.length_encode junk
  by_cases hn : n ≤ Text.bytes junk
  · rcases Text.exists_of_drop_encode hn with hcut | ⟨a, rest, hdrop, ha, ha'⟩
    · exact hcut
    · rw [List.drop_append_of_le_length (hsize ▸ hn), hdrop, List.cons_append,
        readMessage_trail ha ha'] at h
      cases h
  · have hbehind : (Text.encode junk ++ f.bytes).drop n <:+ f.bytes.tail := by
      obtain ⟨k, hk⟩ := Nat.exists_eq_add_of_le (show 1 ≤ n - (Text.encode junk).length by omega)
      rw [List.drop_append, List.drop_eq_nil_of_le (by omega), List.nil_append, hk,
        ← List.drop_drop, List.drop_one]
      exact List.drop_suffix k _
    exact absurd h (Frame.not_ok_of_suffix hbody hbehind m' behind)

/-- **The next message is found** behind an oversized header and junk exactly if the junk begins
with a text of just the bytes that the header announces; the fault is given in any case. -/
theorem Oversized.resumes_iff (h : Oversized) (hjunk : ¬ lengthMark <:+: junk)
    (hbody : Message.decode f.body = .ok m) :
    (∀ rest, ∃ left,
      readMessage (Text.encode h.full ++ Text.encode junk ++ f.bytes ++ rest) =
        some (.error h.fault, left)) ∧
    ((∀ rest, ∃ left behind,
      readMessage (Text.encode h.full ++ Text.encode junk ++ f.bytes ++ rest) =
        some (.error h.fault, left) ∧ readMessage left = some (.ok m, behind)) ↔
      ∃ before after, junk = before ++ after ∧ Text.bytes before = h.length) := by
  have hfault (rest : Bytes) :
      readMessage (Text.encode h.full ++ Text.encode junk ++ f.bytes ++ rest) =
        some (.error h.fault, (Text.encode junk ++ f.bytes ++ rest).drop h.length) := by
    rw [← h.readMessage_full, List.append_assoc, List.append_assoc, List.append_assoc]
  refine ⟨fun rest => ⟨_, hfault rest⟩, fun hresumes => ?_, ?_⟩
  · obtain ⟨left, behind, hleft, hnext⟩ := hresumes []
    rw [hfault, List.append_nil] at hleft
    obtain ⟨-, rfl⟩ := Prod.mk.inj (Option.some.inj hleft)
    exact exists_of_readMessage_drop hbody hnext
  · rintro ⟨before, after, rfl, hbefore⟩ rest
    refine ⟨_, rest, hfault rest, ?_⟩
    have hafter : ¬ lengthMark <:+: after := fun hwithin =>
      hjunk (hwithin.trans (List.suffix_append _ _).isInfix)
    have hcut : (Text.encode (before ++ after) ++ f.bytes ++ rest).drop h.length =
        Text.encode after ++ f.bytes ++ rest := by
      rw [← hbefore, ← Text.length_encode, Text.encode_append]
      simp only [List.append_assoc, List.drop_left]
    rw [hcut, f.readMessage_bytes hafter, hbody]

/-- A request to clear, in its frame. -/
def clearFrame : Frame :=
  .ofBody (Text.encode "\x7b\"seq\":1,\"type\":\"request\",\"command\":\"clear\"\x7d")
    (Nat.le_trans (m := 64) (by decide) (by decide))

theorem decode_clearFrame :
    Message.decode clearFrame.body = .ok ⟨1, "request", .request "clear" none⟩ := by cbv

/-- Behind spaces for the whole body that was announced, the next message is found. -/
theorem resumes_behind_spaces :
    let h := Oversized.ofLength (maxBody + 1) (by decide) (Nat.lt_succ_self maxBody)
    let junk := List.replicate (maxBody + 1) ' '
    ¬ lengthMark <:+: junk ∧
      Message.decode clearFrame.body = .ok ⟨1, "request", .request "clear" none⟩ ∧
      ∀ rest, ∃ left behind,
        readMessage (Text.encode h.full ++ Text.encode junk ++ clearFrame.bytes ++ rest) =
          some (.error h.fault, left) ∧
        readMessage left = some (.ok ⟨1, "request", .request "clear" none⟩, behind) := by
  intro h junk
  have hjunk : ¬ lengthMark <:+: junk := by
    intro hwithin
    have hmem : 'C' ∈ junk := hwithin.subset (by decide)
    exact absurd (List.eq_of_mem_replicate hmem) (by decide)
  have hbytes : Text.bytes junk = h.length := by
    rw [Text.bytes_replicate]
    rfl
  have hresumes := (h.resumes_iff hjunk decode_clearFrame).2.mpr ⟨junk, [], by simp, hbytes⟩
  exact ⟨hjunk, decode_clearFrame, hresumes⟩

/-- Without junk the next message is lost, and with it all that is left. -/
theorem next_message_lost :
    let h := Oversized.ofLength (maxBody + 1) (by decide) (Nat.lt_succ_self maxBody)
    Message.decode clearFrame.body = .ok ⟨1, "request", .request "clear" none⟩ ∧
      readMessage (Text.encode h.full ++ clearFrame.bytes) = some (.error h.fault, []) ∧
      readMessage [] = none := by
  intro h
  have hshort : clearFrame.bytes.length ≤ h.length :=
    Nat.le_trans (m := 128) (by decide) (by decide)
  refine ⟨decode_clearFrame, ?_, by simp [readMessage, readHeader]⟩
  rw [h.readMessage_full, List.drop_eq_nil_of_le hshort]

end Workbench.Wire
