import Workbench.Proofs.Session.Rest

/-!
# Proofs/Session/Meter — the numbers of a session

The numbers that a session holds grow with what is done to it: the caret stays within the source,
and every run mounts one surface at most.  So they are bounded by the length of the source and by
the number of runs (`Metered`).
-/

namespace Workbench

open Text (bytes bytes_append bytes_splitBytes floorBoundary splitBytes splitBytes_append)

/-- An offset that is moved back to a boundary is within the text. -/
theorem Text.floorBoundary_le_bytes (t : Text) (offset : Nat) : floorBoundary t offset ≤ bytes t := by
  calc floorBoundary t offset = bytes (splitBytes t offset).1 := (bytes_splitBytes t offset).symm
    _ ≤ bytes (splitBytes t offset).1 + bytes (splitBytes t offset).2 := Nat.le_add_right _ _
    _ = bytes t := by rw [← bytes_append, splitBytes_append]

/-! ## Surfaces that are mounted -/

theorem Host.teardown_mounted (h : Host) (id : SurfaceId) :
    (h.teardown id).2.mounted = h.mounted := by
  unfold teardown
  dsimp only
  split
  · rfl
  · split <;> rfl

/-- A call to mount takes one number at most. -/
theorem Host.mount_mounted_le (h : Host) (document : Text) :
    (h.mount document).2.mounted ≤ h.mounted + 1 := by
  rcases h.mount_cases document with ⟨e, -, hhost⟩ | ⟨-, hhost⟩
  · rw [hhost]
    exact Nat.le_succ _
  · rw [hhost]

namespace Preview

theorem discard_mounted (p : Preview) : p.discard.2.host.mounted = p.host.mounted := by
  unfold discard
  split
  · rfl
  · exact Host.teardown_mounted _ _

/-- A render mounts one surface at most. -/
theorem render_mounted_le (p : Preview) (document : Text) :
    (p.render document).2.host.mounted ≤ p.host.mounted + 1 := by
  rw [← p.discard_mounted]
  rcases p.render_cases document with hrender | hrender
  · rw [hrender]
    exact Nat.le_succ _
  · rw [hrender]
    exact Host.mount_mounted_le _ _

end Preview

namespace Session

/-- A run takes one number at most. -/
theorem execute_mounted_le (s : Session) (document : Document) :
    (s.execute document).2.preview.host.mounted ≤ s.preview.host.mounted + 1 := by
  have hrender := s.preview.render_mounted_le document.text
  unfold execute
  split
  · exact Nat.le_succ _
  · split
    · next hresult => rwa [hresult] at hrender
    · next hresult => rwa [hresult] at hrender

/-- A document that is carried out changes neither the source with its caret nor the settings. -/
theorem execute_keeps (s : Session) (document : Document) :
    (s.execute document).2.bench.caret = s.bench.caret ∧
      (s.execute document).2.bench.source = s.bench.source ∧
      (s.execute document).2.settings = s.settings := by
  rcases s.execute_cases document with ⟨log, preview, hexecute⟩ | ⟨id, preview, -, hexecute⟩
  · rw [hexecute]
    exact ⟨rfl, rfl, rfl⟩
  · rw [hexecute]
    exact ⟨rfl, rfl, rfl⟩

/-- A session at rest whose numbers are bounded: the caret stands in the source, and no more than
`n` surfaces were mounted. -/
structure Metered (n : Nat) (s : Session) : Prop extends s.AtRest where
  caret : s.bench.caret ≤ bytes s.bench.source
  delay : s.settings.runDelay < 2 ^ 64
  mounted : s.preview.host.mounted ≤ n

variable {s : Session} {n k : Nat}

theorem Metered.new {settings : Settings} (h : settings.runDelay < 2 ^ 64) (refusals : Refusals) :
    (Session.new settings { refusals }).Metered 0 where
  toAtRest := .new settings refusals
  caret := Nat.zero_le _
  delay := h
  mounted := Nat.le_refl 0

/-- A bound on the numbers may be any larger one. -/
theorem Metered.mono (h : s.Metered n) (hk : n ≤ k) : s.Metered k :=
  { h with mounted := Nat.le_trans h.mounted hk }

/-- A run moves no caret, and mounts one surface at most. -/
theorem Metered.run (h : s.Metered n) : s.run.2.Metered (n + 1) := by
  have hrest : s.run.2.AtRest := h.toAtRest.run
  have hmounted := s.begun.execute_mounted_le s.bench.snapshot
  obtain ⟨hcaret, hsource, hsettings⟩ := s.begun.execute_keeps s.bench.snapshot
  rw [h.run_eq] at hrest ⊢
  exact {
    toAtRest := hrest
    caret := by
      rw [hcaret, hsource]
      exact h.caret
    delay := by
      rw [hsettings]
      exact h.delay
    mounted := Nat.le_trans hmounted (Nat.succ_le_succ h.mounted) }

theorem Metered.clear (h : s.Metered n) : s.clear.Metered n := by
  have hrest : s.clear.AtRest := h.toAtRest.clear
  rw [Session.clear, h.dropPending_eq] at hrest ⊢
  exact ⟨hrest, h.caret, h.delay, (s.preview.discard_mounted).trans_le h.mounted⟩

theorem Metered.switchLanguage (h : s.Metered n) (l : Language) : (s.switchLanguage l).Metered n := by
  have hrest : (s.switchLanguage l).AtRest := h.toAtRest.switchLanguage l
  rw [Session.switchLanguage, h.dropPending_eq] at hrest ⊢
  exact ⟨hrest, Nat.zero_le _, h.delay, (s.preview.discard_mounted).trans_le h.mounted⟩

theorem Metered.edit (h : s.Metered n) (text : Text) : (s.edit text).Metered n where
  toAtRest := ⟨⟨h.notRunning, h.noneWaits⟩, h.issued, h.kept⟩
  caret := Text.floorBoundary_le_bytes text _
  delay := h.delay
  mounted := h.mounted

/-- The caret behind an indent stands in the source with the indent. -/
theorem Metered.insertIndent (h : s.Metered n) (start stop : Nat) :
    (s.insertIndent start stop).Metered n where
  toAtRest := ⟨⟨h.notRunning, h.noneWaits⟩, h.issued, h.kept⟩
  caret := by
    rw [Session.insertIndent, Bench.insertIndent]
    dsimp only
    rw [bytes_append, bytes_append]
    exact Nat.le_add_right _ _
  delay := h.delay
  mounted := h.mounted

/-- A surface on which a run ended is one of those that were mounted. -/
theorem AtRest.surface_le {id : SurfaceId} (h : s.AtRest) (hid : s.run.1 = some (.surface id)) :
    id ≤ s.run.2.preview.host.mounted := by
  rcases h.outcome with ⟨log, hlog⟩ | ⟨id', hid', hcurrent, -⟩
  · rw [hlog] at hid
    cases hid
  · obtain rfl : id' = id := by simpa [hid'] using hid
    exact h.run.kept.numbered id' (h.run.kept.current id' hcurrent)

end Session
end Workbench
