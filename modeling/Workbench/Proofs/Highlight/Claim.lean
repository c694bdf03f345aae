import Mathlib
import Workbench.Highlight.Span

/-!
# Proofs/Highlight/Claim — claimed spans stay in order

The spans of a source are **ordered**: each holds something, and each ends before the next begins.
So one look at the first span that ends behind a place is enough: `covering` finds the span that
holds the place (`Ordered.exists_of_covering`), and `claim?` adds a span exactly if it holds
something and is apart from all that are there (`Ordered.exists_claim?_iff`), and keeps the order
(`Ordered.claim`).
-/

namespace Workbench.Highlight

/-- Two spans have nothing in common. -/
def Span.Apart (s t : Span) : Prop := s.stop ≤ t.start ∨ t.stop ≤ s.start

instance Span.Apart.instSymm : Std.Symm Span.Apart := ⟨fun _ _ => Or.symm⟩

/-- Spans that hold something, each of which ends before the next begins. -/
structure Ordered (spans : List Span) : Prop where
  holding : ∀ s ∈ spans, s.start < s.stop
  pairwise : spans.Pairwise fun s t => s.stop ≤ t.start

variable {spans spans' : List Span} {new s t : Span} {offset stop : Nat}

/-- A span that holds something is not apart from itself. -/
theorem Span.not_apart_self (h : s.start < s.stop) : ¬ s.Apart s := by
  rintro (h' | h') <;> exact absurd h (Nat.not_lt.mpr h')

theorem Ordered.nil : Ordered [] := ⟨nofun, .nil⟩

/-- Different spans are apart. -/
theorem Ordered.apart (h : Ordered spans) (hs : s ∈ spans) (ht : t ∈ spans) (hne : s ≠ t) :
    s.Apart t :=
  (h.pairwise.imp (S := Span.Apart) .inl).forall hs ht hne

/-! ## The spans before and behind a place -/

/-- The spans that end before a place. -/
abbrev endingBefore (offset : Nat) (spans : List Span) : List Span :=
  spans.takeWhile fun s => s.stop ≤ offset

/-- An offset cuts the claims in two. -/
theorem endingBefore_append_endingAfter (offset : Nat) (spans : List Span) :
    endingBefore offset spans ++ endingAfter offset spans = spans :=
  List.takeWhile_append_dropWhile

theorem mem_iff_before_or_after (offset : Nat) :
    s ∈ spans ↔ s ∈ endingBefore offset spans ∨ s ∈ endingAfter offset spans := by
  rw [← List.mem_append, endingBefore_append_endingAfter]

theorem stop_le_of_mem (h : s ∈ endingBefore offset spans) : s.stop ≤ offset :=
  of_decide_eq_true (List.all_eq_true.mp List.all_takeWhile s h)

/-- All spans from the first that ends behind an offset on end behind it. -/
theorem Ordered.lt_stop_of_mem (h : Ordered spans) (hs : s ∈ endingAfter offset spans) :
    offset < s.stop := by
  induction spans with
  | nil => cases hs
  | cons first spans ih =>
    obtain ⟨hbehind, hpairwise⟩ := List.pairwise_cons.mp h.pairwise
    have hspans : Ordered spans :=
      ⟨fun s hs => h.holding s (List.mem_cons_of_mem _ hs), hpairwise⟩
    by_cases hfirst : first.stop ≤ offset
    · rw [endingAfter, List.dropWhile_cons_of_pos (by simpa using hfirst)] at hs
      exact ih hspans hs
    · rw [endingAfter, List.dropWhile_cons_of_neg (by simpa using hfirst)] at hs
      rcases List.mem_cons.mp hs with rfl | hs
      · exact Nat.lt_of_not_le hfirst
      · have := hbehind s hs
        have := hspans.holding s hs
        omega

/-- What covers a place is a span that holds it. -/
theorem Ordered.exists_of_covering (h : Ordered spans) (hcovering : covering offset spans = some stop) :
    ∃ s ∈ spans, s.start ≤ offset ∧ offset < s.stop ∧ s.stop = stop := by
  unfold covering at hcovering
  split at hcovering
  · cases hcovering
  · next first later hafter =>
    have hmem : first ∈ endingAfter offset spans := hafter ▸ List.mem_cons_self
    split at hcovering
    · next hstart =>
      exact ⟨first, (mem_iff_before_or_after offset).mpr (.inr hmem), hstart, h.lt_stop_of_mem hmem,
        Option.some.inj hcovering⟩
    · cases hcovering

/-! ## Claims -/

/-- The span fits in front of the spans behind its start. -/
theorem Ordered.fits_iff (h : Ordered spans) :
    ((endingAfter new.start spans).head?.all fun s => new.stop ≤ s.start) = true ↔
      ∀ s ∈ spans, new.Apart s := by
  constructor
  · intro hfits s hs
    rcases (mem_iff_before_or_after new.start).mp hs with hs | hs
    · exact .inr (stop_le_of_mem hs)
    · refine .inl ?_
      cases hafter : endingAfter new.start spans with
      | nil => rw [hafter] at hs; cases hs
      | cons first later =>
        rw [hafter] at hs hfits
        have hfirst : new.stop ≤ first.start := by simpa using hfits
        rcases List.mem_cons.mp hs with rfl | hs
        · exact hfirst
        · have hpairwise := h.pairwise.sublist (List.dropWhile_sublist fun s => s.stop ≤ new.start)
          rw [← endingAfter, hafter] at hpairwise
          have := (List.pairwise_cons.mp hpairwise).1 s hs
          have := h.holding first ((mem_iff_before_or_after new.start).mpr (.inr (by simp [hafter])))
          omega
  · intro hapart
    cases hafter : endingAfter new.start spans with
    | nil => rfl
    | cons first later =>
      have hmem : first ∈ endingAfter new.start spans := hafter ▸ List.mem_cons_self
      have hlt := h.lt_stop_of_mem hmem
      rcases hapart first ((mem_iff_before_or_after new.start).mpr (.inr hmem)) with hle | hle
      · simpa using hle
      · omega

/-- A claim is made if it has something in it and ends before the next span begins; it is put there.
-/
theorem claim?_eq_some_iff : claim? spans new = some spans' ↔
    (new.start < new.stop ∧
      ((endingAfter new.start spans).head?.all fun s => new.stop ≤ s.start) = true) ∧
    endingBefore new.start spans ++ new :: endingAfter new.start spans = spans' := by
  rw [claim?]
  split <;> simp_all

/-- **A span is claimed** exactly if it holds something and is apart from all others. -/
theorem Ordered.exists_claim?_iff (h : Ordered spans) :
    (∃ spans', claim? spans new = some spans') ↔
      new.start < new.stop ∧ ∀ s ∈ spans, new.Apart s := by
  simp only [claim?_eq_some_iff, exists_and_left, exists_eq', and_true]
  exact and_congr_right fun _ => h.fits_iff

/-- What is claimed is there, with all that was there before. -/
theorem mem_of_claim? (hclaim : claim? spans new = some spans') :
    s ∈ spans' ↔ s = new ∨ s ∈ spans := by
  obtain ⟨-, rfl⟩ := claim?_eq_some_iff.mp hclaim
  have hsplit : s ∈ spans ↔ s ∈ endingBefore new.start spans ∨ s ∈ endingAfter new.start spans :=
    mem_iff_before_or_after new.start
  rw [hsplit, List.mem_append, List.mem_cons]
  tauto

/-- A claim keeps the order. -/
theorem Ordered.claim (h : Ordered spans) (hclaim : claim? spans new = some spans') :
    Ordered spans' := by
  obtain ⟨hnew, hapart⟩ := h.exists_claim?_iff.mp ⟨spans', hclaim⟩
  refine ⟨fun s hs => ?_, ?_⟩
  · rcases (mem_of_claim? hclaim).mp hs with rfl | hs
    · exact hnew
    · exact h.holding s hs
  · have hsplit := h.pairwise
    rw [← endingBefore_append_endingAfter new.start spans, List.pairwise_append] at hsplit
    obtain ⟨hbefore, hafter, hacross⟩ := hsplit
    obtain ⟨-, rfl⟩ := claim?_eq_some_iff.mp hclaim
    refine List.pairwise_append.mpr ⟨hbefore, List.pairwise_cons.mpr ⟨fun t ht => ?_, hafter⟩,
      fun s hs t ht => ?_⟩
    · have hlt := h.lt_stop_of_mem ht
      rcases hapart t ((mem_iff_before_or_after new.start).mpr (.inr ht)) with hle | hle
      · exact hle
      · omega
    · rcases List.mem_cons.mp ht with rfl | ht
      · exact stop_le_of_mem hs
      · exact hacross s hs t ht

end Workbench.Highlight
