import Workbench.Json.Value

/-!
# Proofs/Json/Canonical — values in their one form

A value whose objects have their keys in order, each key once, is its own sorted form
(`Canonical.sorted_eq`).
-/

namespace Workbench.Json

/-- The keys of every object are in order, and each stands once. -/
inductive Canonical : Json → Prop
  | null : Canonical null
  | bool (b : Bool) : Canonical (bool b)
  | number (n : Number) : Canonical (number n)
  | string (t : Text) : Canonical (string t)
  | array {items : List Json} : (∀ item ∈ items, Canonical item) → Canonical (array items)
  | object {members : Members} : members.Pairwise (fun a b => keyBefore a.1 b.1) →
      (∀ member ∈ members, Canonical member.2) → Canonical (object members)

variable {items : List Json} {members : Members} {key : Text} {value : Json}

/-- An array is in its kept form if its items are. -/
@[simp] theorem canonical_array_iff : (array items).Canonical ↔ ∀ item ∈ items, item.Canonical :=
  ⟨fun | .array h => h, .array⟩

@[simp] theorem canonical_object_iff : (object members).Canonical ↔
    members.Pairwise (fun a b => keyBefore a.1 b.1) ∧ ∀ member ∈ members, member.2.Canonical :=
  ⟨fun | .object hkeys h => ⟨hkeys, h⟩, fun h => .object h.1 h.2⟩

theorem sortedItems_eq (h : ∀ item ∈ items, item.sorted = item) : sortedItems items = items := by
  induction items with
  | nil => rfl
  | cons item items ih =>
    obtain ⟨hitem, hitems⟩ := List.forall_mem_cons.mp h
    rw [sortedItems, hitem, ih hitems]

/-- No key comes before itself. -/
theorem not_keyBefore_self (key : Text) : keyBefore key key = false := by
  induction key with
  | nil => rfl
  | cons c key ih => simp [keyBefore, ih]

/-- A member before all others is put in front of them. -/
theorem setMember_of_before (h : ∀ member ∈ members, keyBefore key member.1) :
    setMember key value members = (key, value) :: members := by
  cases members with
  | nil => rfl
  | cons member members =>
    have hbefore := h member List.mem_cons_self
    have hne : member.1 ≠ key := by
      intro heq
      rw [heq, not_keyBefore_self] at hbefore
      cases hbefore
    rw [setMember, if_neg hne, if_pos hbefore]

/-- Members whose keys are in order are left as they are. -/
theorem sortedMembers_eq (hkeys : members.Pairwise fun a b => keyBefore a.1 b.1)
    (h : ∀ member ∈ members, member.2.sorted = member.2) : sortedMembers members = members := by
  induction members with
  | nil => rfl
  | cons member members ih =>
    obtain ⟨hbefore, hkeys⟩ := List.pairwise_cons.mp hkeys
    have hmember : member.2.sorted = member.2 := h member List.mem_cons_self
    have hnone : members.lookup member.1 = none := by
      rw [List.lookup_eq_none_iff]
      intro other hother
      refine bne_iff_ne.mpr fun heq => ?_
      have := hbefore other hother
      rw [← heq, not_keyBefore_self] at this
      cases this
    rw [sortedMembers, ih hkeys fun member hmem => h member (List.mem_cons_of_mem _ hmem)]
    simp only [hnone, hmember, setMember_of_before hbefore]
    rfl

/-- **A canonical value** is its own sorted form. -/
theorem Canonical.sorted_eq {v : Json} (h : v.Canonical) : v.sorted = v := by
  induction h with
  | null | bool | number | string => rfl
  | array _ ih => rw [sorted, sortedItems_eq ih]
  | object hkeys _ ih => rw [sorted, sortedMembers_eq hkeys ih]

end Workbench.Json
