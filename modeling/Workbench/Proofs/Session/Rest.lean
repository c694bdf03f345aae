import Workbench.Proofs.Session.Flag

/-!
# Proofs/Session/Rest — a session between two operations

As long as nobody requests a run without firing it, a session is **at rest** between operations: no
run is under way, none waits, and no handle that is still to be issued was cancelled.  So a run is
carried out as soon as it is asked for (`AtRest.run_eq`), and is over with its outcome: a log, or a
surface on which the source stands (`AtRest.outcome`).
-/

namespace Workbench

/-! ## What a render shows -/

/-- What is rendered is current, and stands on its surface. -/
theorem Preview.Kept.shown {p q : Preview} (hp : p.Kept) {document : Text} {id : SurfaceId}
    (h : p.render document = (.ok id, q)) :
    q.current = some id ∧ q.host.live.lookup id = some document := by
  have hdiscard : p.discard.2.Kept := hp.discard
  unfold Preview.render at h
  split at h
  · cases h
  · next p' hp' =>
    rw [hp'] at hdiscard
    rcases p'.host.mount_cases document with ⟨e, hresult, -⟩ | ⟨hresult, hhost⟩
    · rw [← Prod.mk.eta (p := p'.host.mount document), hresult] at h
      cases h
    · rw [← Prod.mk.eta (p := p'.host.mount document), hresult] at h
      obtain ⟨rfl, rfl⟩ : p'.host.mounted + 1 = id ∧ _ = q := by simpa using h
      have hfresh : p'.host.live.lookup (p'.host.mounted + 1) = none := by
        rw [List.lookup_eq_none_iff]
        intro shown hshown
        have hle : shown.1 ≤ p'.host.mounted :=
          hdiscard.numbered shown.1 (List.mem_map_of_mem hshown)
        exact bne_iff_ne.mpr (Nat.ne_of_gt (Nat.lt_succ_of_le hle))
      refine ⟨rfl, ?_⟩
      show (p'.host.mount document).2.live.lookup (p'.host.mounted + 1) = some document
      rw [hhost, List.lookup_append, hfresh]
      simp

namespace Session

/-- Idle, and fit for the next run. -/
structure AtRest (s : Session) : Prop extends s.Idle where
  /-- Only handles that were issued are cancelled. -/
  issued : ∀ id ∈ s.scheduler.cancelled, id ≤ s.scheduler.issued
  kept : s.preview.Kept

variable {s : Session}

theorem AtRest.new (settings : Settings) (refusals : Refusals) :
    (Session.new settings { refusals }).AtRest where
  notRunning := rfl
  noneWaits := rfl
  issued := nofun
  kept := .new refusals

/-! ## Runs -/

/-- **A run is carried out at once** on the source as it is. -/
theorem AtRest.run_eq (h : s.AtRest) :
    s.run = (some (s.begun.execute s.bench.snapshot).1, (s.begun.execute s.bench.snapshot).2) := by
  have hcancelled : s.scheduler.issued + 1 ∉ s.scheduler.cancelled := fun hmem =>
    absurd (h.issued _ hmem) (Nat.not_succ_le_self _)
  have hdue : s.requestRun.2.scheduler.isCancelled s.nextTask.id = false := by
    rw [h.requestRun_eq]
    exact decide_eq_false hcancelled
  have hbegun : s.requestRun.2.released = s.begun := by
    rw [h.requestRun_eq, released, begun, ← h.noneWaits]
  rw [run, h.waits_requestRun.runPending_of_due hdue, hbegun]
  rfl

/-- A run leaves nothing under way. -/
theorem AtRest.run (h : s.AtRest) : s.run.2.AtRest := by
  have hkept : (s.begun.execute s.bench.snapshot).2.preview.Kept :=
    h.kept.reaches (reaches_execute s.begun s.bench.snapshot)
  have hissued : ∀ id ∈ s.scheduler.cancelled, id ≤ s.scheduler.issued + 1 := fun id hid =>
    Nat.le_succ_of_le (h.issued id hid)
  rw [h.run_eq]
  rcases s.begun.execute_cases s.bench.snapshot with ⟨log, preview, hexecute⟩ |
    ⟨id, preview, -, hexecute⟩
  · rw [hexecute] at hkept ⊢
    exact ⟨⟨rfl, h.noneWaits⟩, hissued, hkept⟩
  · rw [hexecute] at hkept ⊢
    exact ⟨⟨rfl, h.noneWaits⟩, hissued, hkept⟩

/-- **A run ends** with a log, or with the source on the current surface. -/
theorem AtRest.outcome (h : s.AtRest) :
    (∃ log, s.run.1 = some (.log log)) ∨
    (∃ id, s.run.1 = some (.surface id) ∧ s.run.2.preview.current = some id ∧
      s.run.2.preview.host.live.lookup id = some s.run.2.bench.source) := by
  rw [h.run_eq]
  rcases s.begun.execute_cases s.bench.snapshot with ⟨log, preview, hexecute⟩ |
    ⟨id, preview, hrender, hexecute⟩
  · rw [hexecute]
    exact .inl ⟨log, rfl⟩
  · rw [hexecute]
    obtain ⟨hcurrent, hlive⟩ := Preview.Kept.shown h.kept hrender
    exact .inr ⟨id, rfl, hcurrent, hlive⟩

/-! ## The other operations -/

theorem AtRest.clear (h : s.AtRest) : s.clear.AtRest := by
  rw [Session.clear, h.dropPending_eq]
  exact ⟨⟨h.notRunning, h.noneWaits⟩, h.issued, h.kept.discard⟩

theorem AtRest.switchLanguage (h : s.AtRest) (l : Language) : (s.switchLanguage l).AtRest := by
  rw [Session.switchLanguage, h.dropPending_eq]
  exact ⟨⟨h.notRunning, h.noneWaits⟩, h.issued, h.kept.discard⟩

end Session
end Workbench
