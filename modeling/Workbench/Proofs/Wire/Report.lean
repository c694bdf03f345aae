import Workbench.Proofs.Wire.RoundTrip
import Workbench.Wire.Body

/-!
# Proofs/Wire/Report — what a server tells can be read

Every body of a server is an object with its keys in order, nested in no more than four arrays and
objects, and has no numbers but offsets, the number of a surface and a delay.  So any message can
carry it if these are within 64 bits (`Report`).
-/

namespace Workbench

namespace Json

/-- A value whose numbers are integers within 64 bits and whose keys are in order, with no more than
`d` arrays and objects around one another. -/
structure Told (d : Nat) (v : Json) : Prop where
  exact : v.Exact
  canonical : v.Canonical
  depth : v.depth ≤ d

variable {d n : Nat} {items : List Json} {members : Members} {v : Json}

@[simp] theorem told_string (t : Text) : Told d (string t) := ⟨.string t, .string t, Nat.zero_le d⟩

@[simp] theorem told_bool (b : Bool) : Told d (bool b) := ⟨.bool b, .bool b, Nat.zero_le d⟩

/-- Numbers are what may be wrong with a value that is told: they have to be within 64 bits. -/
@[simp] theorem told_ofNat_iff : Told d (ofNat n) ↔ n < 2 ^ 64 :=
  ⟨fun h => exact_ofNat_iff.mp h.exact,
    fun h => ⟨exact_ofNat_iff.mpr h, .number _, Nat.zero_le d⟩⟩

/-- An array is told if all its items are. -/
@[simp] theorem told_array_iff : Told (d + 1) (array items) ↔ ∀ item ∈ items, Told d item := by
  constructor
  · rintro ⟨hexact, hcanonical, hdepth⟩ item hitem
    exact ⟨exact_array_iff.mp hexact item hitem, canonical_array_iff.mp hcanonical item hitem,
      depthItems_le_iff.mp (Nat.le_of_succ_le_succ hdepth) item hitem⟩
  · intro h
    exact ⟨.array fun item hitem => (h item hitem).exact,
      .array fun item hitem => (h item hitem).canonical,
      Nat.succ_le_succ (depthItems_le_iff.mpr fun item hitem => (h item hitem).depth)⟩

/-- An object is told if its keys are in order and all its values are told. -/
@[simp] theorem told_object_iff : Told (d + 1) (object members) ↔
    members.Pairwise (fun a b => keyBefore a.1 b.1) ∧ ∀ member ∈ members, Told d member.2 := by
  constructor
  · rintro ⟨hexact, hcanonical, hdepth⟩
    obtain ⟨hkeys, hcanonical⟩ := canonical_object_iff.mp hcanonical
    exact ⟨hkeys, fun member hmember => ⟨exact_object_iff.mp hexact member hmember,
      hcanonical member hmember,
      depthMembers_le_iff.mp (Nat.le_of_succ_le_succ hdepth) member hmember⟩⟩
  · rintro ⟨hkeys, h⟩
    exact ⟨.object fun member hmember => (h member hmember).exact,
      .object hkeys fun member hmember => (h member hmember).canonical,
      Nat.succ_le_succ (depthMembers_le_iff.mpr fun member hmember => (h member hmember).depth)⟩

/-- A value that any message can carry, whatever else the message says. -/
structure Report (v : Json) : Prop extends v.Payload where
  depth : v.depth ≤ 4

/-- An object that is told, and no deeper than four levels, can be carried. -/
theorem Told.report (h : (object members).Told 4) : (object members).Report where
  notNull := nofun
  exact := h.exact
  canonical := h.canonical
  depth := h.depth

/-- An object that holds one text can be carried. -/
theorem report_text (key t : Text) : (object [(key, string t)]).Report := Told.report (by simp)

end Json

namespace Body

open Json (keyBefore)

/-- A log has no numbers. -/
theorem report_output (log : Log) : (output log).Report :=
  Json.Told.report (by simp [Body.log, entry, keyBefore])

/-- A document goes with the number of its surface. -/
theorem report_shown (document : Text) {id : SurfaceId} (h : id < 2 ^ 64) :
    (shown document id).Report :=
  Json.Told.report (by simpa [keyBefore] using h)

theorem report_cancelled : cancelled.Report := Json.Told.report (by simp)

/-- The one number in an introduction is the delay before a run. -/
theorem report_introduction {s : Session} (h : s.settings.runDelay < 2 ^ 64) :
    (introduction s).Report :=
  Json.Told.report (by simpa [keyBefore] using h)

theorem report_switched (b : Bench) : (switched b).Report :=
  Json.Told.report (by simp [keyBefore])

/-- A source goes with the caret in it. -/
theorem report_indented {b : Bench} (h : b.caret < 2 ^ 64) : (indented b).Report :=
  Json.Told.report (by simpa [keyBefore] using h)

/-- The state of a bench has one number, the caret. -/
theorem report_state {b : Bench} (h : b.caret < 2 ^ 64) : (state b).Report :=
  Json.Told.report (by simpa [Body.log, entry, keyBefore] using h)

/-- Highlighting is told with the offsets of all spans. -/
theorem report_highlighting (markup : Text) {spans : List Highlight.Span}
    (h : ∀ s ∈ spans, s.stop < 2 ^ 64 ∧ s.start < 2 ^ 64) : (highlighting markup spans).Report :=
  Json.Told.report (by simpa [span, keyBefore] using h)

end Body
end Workbench
