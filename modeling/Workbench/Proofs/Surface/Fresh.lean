import Workbench.Proofs.Surface.Stray

/-!
# Proofs/Surface/Fresh — a document that is taken is shown on a surface of its own

A host numbers surfaces upwards, so what it mounts next was neither live nor torn down before
(`Past`).  It mounts a document if it lets go of the current surface first and refuses neither call
(`Accepts`); then the document is on a fresh surface (`Accepts.exists_render`).
-/

namespace Workbench.Preview

variable {p q : Preview}

/-- Only surfaces that were mounted are torn down. -/
def Past (p : Preview) : Prop := ∀ id ∈ p.host.tornDown, id ≤ p.host.mounted

theorem Past.new (refusals : Refusals) : Past { host := { refusals } } := nofun

/-- The surface that is let go of was mounted. -/
theorem Past.discard (h : p.Past) (hkept : p.Kept) : p.discard.2.Past := by
  cases hcurrent : p.current with
  | none => rwa [discard_of_none hcurrent]
  | some old =>
    have hmem : old ∈ p.host.ids := hkept.current old hcurrent
    rw [discard_of_some hcurrent, Past]
    rcases Host.teardown_cases hmem with ⟨e, -, -, hhost⟩ | ⟨-, -, hhost⟩
    · rw [hhost]
      exact h
    · rw [hhost]
      intro id hid
      rcases List.mem_append.mp hid with hid | hid
      · exact h id hid
      · rw [List.mem_singleton.mp hid]
        exact hkept.numbered old hmem

theorem Past.render (h : p.Past) (hkept : p.Kept) (document : Text) :
    (p.render document).2.Past := by
  have hdiscard : p.discard.2.Past := h.discard hkept
  rcases p.render_cases document with hrender | hrender
  · rwa [hrender]
  · rw [hrender, Past]
    rcases p.discard.2.host.mount_cases document with ⟨e, -, hhost⟩ | ⟨-, hhost⟩
    · rw [hhost]
      exact hdiscard
    · rw [hhost]
      exact fun id hid => Nat.le_succ_of_le (hdiscard id hid)

/-- Whatever becomes of a preview, what it tears down was mounted. -/
theorem Past.reaches (h : p.Past) (hkept : p.Kept) (hreaches : p.Reaches q) : q.Past := by
  induction hreaches with
  | refl => exact h
  | discard hreaches ih => exact ih.discard (hkept.reaches hreaches)
  | render document hreaches ih => exact ih.render (hkept.reaches hreaches) document

/-! ## Documents that are taken -/

/-- The host takes the next document: it lets go of the surface that is shown, if one is, and
refuses no mount. -/
structure Accepts (p : Preview) : Prop where
  teardown : p.current ≠ none → p.host.refusals.teardown (p.host.teardownCalls + 1) = false
  mount : p.host.refusals.mount (p.host.mountCalls + 1) = false

/-- A teardown that is not refused bears on no mount. -/
theorem Accepts.discard_eq (h : p.Accepts) (hkept : p.Kept) :
    ∃ q, p.discard = (.ok (), q) ∧ q.host.mounted = p.host.mounted ∧
      q.host.refusals.mount (q.host.mountCalls + 1) = false := by
  cases hcurrent : p.current with
  | none => exact ⟨p, discard_of_none hcurrent, rfl, h.mount⟩
  | some old =>
    have hmem : old ∈ p.host.ids := hkept.current old hcurrent
    have hallowed := h.teardown (by rw [hcurrent]; nofun)
    rw [discard_of_some hcurrent]
    rcases Host.teardown_cases hmem with ⟨e, -, hrefused, hhost⟩ | ⟨hresult, -, hhost⟩
    · -- a refused teardown would be counted as such
      rw [hhost, Host.refused, Host.refused, List.range_succ, List.countP_append,
        List.countP_singleton, if_neg (Bool.eq_false_iff.mp hallowed)] at hrefused
      exact absurd hrefused (Nat.ne_of_lt (Nat.lt_succ_self _))
    · rw [hresult, hhost]
      exact ⟨_, rfl, rfl, h.mount⟩

/-- **A document that the host takes** is shown on a surface that was never used. -/
theorem Accepts.exists_render (h : p.Accepts) (hkept : p.Kept) (hpast : p.Past) (document : Text) :
    ∃ id q, p.render document = (.ok id, q) ∧ id ∉ p.host.ids ∧ id ∉ p.host.tornDown := by
  obtain ⟨q, hdiscard, hmounted, hallowed⟩ := h.discard_eq hkept
  have hmount : (q.host.mount document).1 = .ok (p.host.mounted + 1) := by
    rw [Host.mount, ← hmounted]
    dsimp only
    rw [hallowed]
    rfl
  refine ⟨p.host.mounted + 1, ⟨(q.host.mount document).2, some (p.host.mounted + 1)⟩, ?_,
    fun hmem => absurd (hkept.numbered _ hmem) (Nat.not_succ_le_self _),
    fun hmem => absurd (hpast _ hmem) (Nat.not_succ_le_self _)⟩
  rw [render, hdiscard]
  dsimp only
  rw [← Prod.mk.eta (p := q.host.mount document), hmount]

end Workbench.Preview
