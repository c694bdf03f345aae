import Mathlib
import Workbench.Surface.Preview

/-!
# Proofs/Surface/Stray — surfaces that nobody takes away

A preview forgets its surface before the host is asked to tear it down.  If the host refuses, the
surface is a **stray**: live, and not the current one.  The accounts are exact (`Kept`): there are
as many strays as teardowns were refused, however renders and discards follow one another and
whatever mounts were refused.  So all that is live is the current surface exactly as long as no
teardown was refused (`Kept.single_iff`).
-/

namespace Workbench

/-! ## What a host does -/

namespace Host

/-- The surfaces that are live. -/
def ids (h : Host) : List SurfaceId := h.live.map Prod.fst

/-- How many teardowns were refused so far. -/
def refused (h : Host) : Nat :=
  (List.range h.teardownCalls).countP fun call => h.refusals.teardown (call + 1)

variable {h : Host} {id : SurfaceId}

/-- Nothing was refused if no call so far was to be. -/
theorem refused_eq_zero :
    h.refused = 0 ↔
      ∀ call, 1 ≤ call → call ≤ h.teardownCalls → h.refusals.teardown call = false := by
  rw [refused, List.countP_eq_zero]
  constructor
  · intro hnone call hfirst hlast
    obtain ⟨call, rfl⟩ := Nat.exists_eq_add_of_le' hfirst
    exact eq_false_of_ne_true (hnone call (List.mem_range.mpr hlast))
  · intro hnone call hcall
    rw [hnone (call + 1) (Nat.le_add_left 1 call) (List.mem_range.mp hcall)]
    exact Bool.false_ne_true

theorem mount_refusals (h : Host) (document : Text) :
    (h.mount document).2.refusals = h.refusals := by
  unfold mount
  dsimp only
  split <;> rfl

theorem teardown_refusals (h : Host) (id : SurfaceId) :
    (h.teardown id).2.refusals = h.refusals := by
  unfold teardown
  dsimp only
  split
  · rfl
  · split <;> rfl

/-- A mount is refused, or there is one more live surface, with a number of its own. -/
theorem mount_cases (h : Host) (document : Text) :
    (∃ e, (h.mount document).1 = .error e ∧
      (h.mount document).2 = { h with mountCalls := h.mountCalls + 1 }) ∨
    ((h.mount document).1 = .ok (h.mounted + 1) ∧
      (h.mount document).2 = { h with
        mountCalls := h.mountCalls + 1
        mounted := h.mounted + 1
        live := h.live ++ [(h.mounted + 1, document)] }) := by
  unfold mount
  dsimp only
  split
  · exact .inl ⟨_, rfl, rfl⟩
  · exact .inr ⟨rfl, rfl⟩

/-- A teardown is refused and counts as such, or the surface is live no longer. -/
theorem teardown_cases (hid : id ∈ h.ids) :
    (∃ e, (h.teardown id).1 = .error e ∧ (h.teardown id).2.refused = h.refused + 1 ∧
      (h.teardown id).2 = { h with teardownCalls := h.teardownCalls + 1 }) ∨
    ((h.teardown id).1 = .ok () ∧ (h.teardown id).2.refused = h.refused ∧
      (h.teardown id).2 = { h with
        teardownCalls := h.teardownCalls + 1
        live := h.live.filter fun (other, _) => other ≠ id
        tornDown := h.tornDown ++ [id] }) := by
  have hlive : (h.live.lookup id).isNone = false := by
    obtain ⟨⟨other, document⟩, hmem, rfl⟩ := List.mem_map.mp hid
    rw [Option.isNone_eq_false_iff, List.lookup_isSome_iff]
    exact ⟨_, hmem, beq_self_eq_true _⟩
  by_cases hrefused : h.refusals.teardown (h.teardownCalls + 1) = true
  · have hcall : h.teardown id =
        (.error (.surface ("teardown " ++ Text.ofNat (h.teardownCalls + 1) ++ " refused")),
          { h with teardownCalls := h.teardownCalls + 1 }) := by
      unfold teardown
      rw [if_pos hrefused]
    refine .inl ⟨_, congrArg Prod.fst hcall, ?_, congrArg Prod.snd hcall⟩
    rw [hcall, refused, List.range_succ, List.countP_append, List.countP_singleton, if_pos hrefused]
    rfl
  · have hcall : h.teardown id = (.ok (), { h with
        teardownCalls := h.teardownCalls + 1
        live := h.live.filter fun (other, _) => other ≠ id
        tornDown := h.tornDown ++ [id] }) := by
      unfold teardown
      rw [if_neg hrefused]
      simp only [hlive]
      rfl
    refine .inr ⟨congrArg Prod.fst hcall, ?_, congrArg Prod.snd hcall⟩
    rw [hcall, refused, List.range_succ, List.countP_append, List.countP_singleton, if_neg hrefused]
    rfl

end Host

/-! ## What a preview does -/

namespace Preview

variable {p : Preview}

theorem discard_of_none (hcurrent : p.current = none) : p.discard = (.ok (), p) := by
  rw [discard, hcurrent]

/-- The current surface is let go of, whether or not the host tears it down. -/
theorem discard_of_some {old : SurfaceId} (hcurrent : p.current = some old) :
    p.discard = ((p.host.teardown old).1, ⟨(p.host.teardown old).2, none⟩) := by
  rw [discard, hcurrent]

/-- A render is the discard alone, if that fails, or goes on with a mount. -/
theorem render_cases (p : Preview) (document : Text) :
    (p.render document).2 = p.discard.2 ∨
    (p.render document).2 = ⟨(p.discard.2.host.mount document).2,
      (p.discard.2.host.mount document).1.toOption⟩ := by
  have hnone : p.discard.2.current = none := p.discard_current
  unfold render
  split
  · next hdiscard => exact .inl (by rw [hdiscard])
  · next q hdiscard =>
    rw [hdiscard] at hnone ⊢
    dsimp only at hnone ⊢
    split
    · next hmount => exact .inr (by rw [hmount, hnone]; rfl)
    · next hmount => exact .inr (by rw [hmount]; rfl)

/-- What a preview comes to by rendering and discarding. -/
inductive Reaches (p : Preview) : Preview → Prop
  | refl : Reaches p p
  | discard {q : Preview} : Reaches p q → Reaches p q.discard.2
  | render {q : Preview} (document : Text) : Reaches p q → Reaches p (q.render document).2

/-- Rendering and discarding can go on from wherever they have come to. -/
theorem Reaches.trans {p q r : Preview} (hpq : Reaches p q) (hqr : Reaches q r) : Reaches p r := by
  induction hqr with
  | refl => exact hpq
  | discard _ ih => exact ih.discard
  | render document _ ih => exact ih.render document

theorem discard_refusals (p : Preview) : p.discard.2.host.refusals = p.host.refusals := by
  unfold discard
  split
  · rfl
  · exact Host.teardown_refusals _ _

/-- What the host refuses is settled from the beginning. -/
theorem Reaches.refusals {p q : Preview} (h : p.Reaches q) :
    q.host.refusals = p.host.refusals := by
  induction h with
  | refl => rfl
  | @discard q _ ih => rw [discard_refusals, ih]
  | @render q document _ ih =>
    rcases q.render_cases document with hrender | hrender
    · rw [hrender, discard_refusals, ih]
    · rw [hrender, Host.mount_refusals, discard_refusals, ih]

/-- The live surfaces that are not the current one. -/
def strays (p : Preview) : List SurfaceId := p.host.ids.filter fun id => some id ≠ p.current

/-- At most one surface is live, and it is the current one. -/
def Single (p : Preview) : Prop :=
  p.host.live.length ≤ 1 ∧ ∀ shown ∈ p.host.live, p.current = some shown.1

/-- **The accounts of surfaces**: there is one stray for each teardown that was refused. -/
structure Kept (p : Preview) : Prop where
  nodup : p.host.ids.Nodup
  numbered : ∀ id ∈ p.host.ids, id ≤ p.host.mounted
  current : ∀ id, p.current = some id → id ∈ p.host.ids
  strays : p.strays.length = p.host.refused

theorem strays_of_current (hcurrent : p.current = none) : p.strays = p.host.ids := by
  rw [strays, hcurrent]
  exact List.filter_eq_self.mpr fun _ _ => rfl

theorem Kept.new (refusals : Refusals) : Kept { host := { refusals } } where
  nodup := List.nodup_nil
  numbered := nofun
  current := nofun
  strays := rfl

/-- A surface that is forgotten becomes a stray if the host keeps it. -/
theorem Kept.discard (hp : p.Kept) : p.discard.2.Kept := by
  cases hcurrent : p.current with
  | none =>
    rw [discard_of_none hcurrent]
    exact hp
  | some old =>
    rw [discard_of_some hcurrent]
    have hmem : old ∈ p.host.ids := hp.current old hcurrent
    have hstrays : p.strays = p.host.ids.erase old := by
      rw [hp.nodup.erase_eq_filter, Preview.strays, hcurrent]
      exact List.filter_congr fun id _ => by simp [bne, beq_eq_decide]
    rcases Host.teardown_cases hmem with ⟨e, -, hrefused, hhost⟩ | ⟨-, hrefused, hhost⟩
    · have hids : (p.host.teardown old).2.ids = p.host.ids := by
        rw [hhost]
        rfl
      refine ⟨hids ▸ hp.nodup, ?_, nofun, ?_⟩
      · rw [hids, hhost]
        exact hp.numbered
      · have hcount := hp.strays
        rw [hstrays, List.length_erase_of_mem hmem] at hcount
        have hpos : 0 < p.host.ids.length := List.length_pos_of_mem hmem
        rw [strays_of_current rfl, hids, hrefused]
        omega
    · have hids : (p.host.teardown old).2.ids = p.strays := by
        rw [hhost, Host.ids, Preview.strays, Host.ids, hcurrent, List.filter_map]
        exact congrArg _ (List.filter_congr fun shown _ => by simp)
      refine ⟨hids ▸ hp.nodup.filter _, ?_, nofun, ?_⟩
      · rw [hids, hhost]
        exact fun id hid => hp.numbered id (List.mem_of_mem_filter hid)
      · rw [strays_of_current rfl, hids, hrefused, hp.strays]

/-- Nothing is mounted while another surface is current, and what is mounted becomes current. -/
theorem Kept.mount (hp : p.Kept) (hcurrent : p.current = none) (document : Text) :
    Kept ⟨(p.host.mount document).2, (p.host.mount document).1.toOption⟩ := by
  have hstrays : p.host.ids.length = p.host.refused := by
    rw [← hp.strays, strays_of_current hcurrent]
  rcases p.host.mount_cases document with ⟨e, hresult, hhost⟩ | ⟨hresult, hhost⟩
  · rw [hresult, hhost]
    exact ⟨hp.nodup, hp.numbered, nofun, by rw [strays_of_current rfl]; exact hstrays⟩
  · have hfresh : p.host.mounted + 1 ∉ p.host.ids := fun hmem =>
      absurd (hp.numbered _ hmem) (Nat.not_succ_le_self _)
    have hids : (p.host.mount document).2.ids = p.host.ids ++ [p.host.mounted + 1] := by
      rw [hhost, Host.ids, List.map_append]
      rfl
    refine ⟨?_, ?_, ?_, ?_⟩
    · rw [hids, ← List.concat_eq_append]
      exact hp.nodup.concat hfresh
    · rw [hids, hhost]
      intro id hid
      rcases List.mem_append.mp hid with hid | hid
      · exact Nat.le_succ_of_le (hp.numbered id hid)
      · exact Nat.le_of_eq (List.mem_singleton.mp hid)
    · rw [hids, hresult]
      rintro id ⟨⟩
      exact List.mem_append_right _ List.mem_cons_self
    · have hold : p.host.ids.filter (fun id => some id ≠ some (p.host.mounted + 1)) = p.host.ids :=
        List.filter_eq_self.mpr fun id hid => by simpa using ne_of_mem_of_not_mem hid hfresh
      have hrefused : (p.host.mount document).2.refused = p.host.refused := by
        rw [hhost]
        rfl
      rw [Preview.strays, hids, hresult, hrefused]
      show ((p.host.ids ++ [p.host.mounted + 1]).filter
        fun id => some id ≠ some (p.host.mounted + 1)).length = _
      rw [List.filter_append, hold]
      simpa using hstrays

/-- A document that is rendered leaves the accounts in order. -/
theorem Kept.render (hp : p.Kept) (document : Text) : (p.render document).2.Kept := by
  rcases p.render_cases document with hrender | hrender
  · rw [hrender]
    exact hp.discard
  · rw [hrender]
    exact hp.discard.mount p.discard_current document

/-- The accounts are kept for good. -/
theorem Kept.reaches {q : Preview} (hp : p.Kept) (h : p.Reaches q) : q.Kept := by
  induction h with
  | refl => exact hp
  | discard _ ih => exact ih.discard
  | render document _ ih => exact ih.render document

/-- What is live is the current surface, exactly if no teardown was refused. -/
theorem Kept.single_iff (hp : p.Kept) : p.Single ↔ ∀ call, 1 ≤ call →
    call ≤ p.host.teardownCalls → p.host.refusals.teardown call = false := by
  have hstrays : p.strays = [] ↔ ∀ shown ∈ p.host.live, p.current = some shown.1 := by
    simp only [Preview.strays, Host.ids, List.filter_eq_nil_iff, List.forall_mem_map,
      decide_eq_true_eq, ne_eq, not_not]
    exact forall₂_congr fun _ _ => eq_comm
  rw [← Host.refused_eq_zero, ← hp.strays, List.length_eq_zero_iff, hstrays, Single,
    and_iff_right_iff_imp]
  intro hcurrent
  have hnodup : (p.host.live.map Prod.fst).Nodup := hp.nodup
  match hlive : p.host.live with
  | [] => exact Nat.zero_le 1
  | [shown] => exact Nat.le_refl 1
  | first :: second :: rest =>
    rw [hlive] at hcurrent hnodup
    have hsame : first.1 = second.1 := Option.some.inj
      ((hcurrent first (by simp)).symm.trans (hcurrent second (by simp)))
    simp [hsame] at hnodup

end Preview
end Workbench
