import Workbench.Proofs.Highlight.Sweep

/-!
# Proofs/Highlight/Cover — claimed spans as sets of offsets

A span holds the offsets from its start up to its end, so that spans are apart if no offset is in
both of them.  In these words a list of claims is sorted by start, and its spans are nonempty and
disjoint (`Claimed`), which is the order that one look at a neighbour needs (`claimed_iff`): the spans
that end at or before an offset come first (`Ordered.exists_partition`), and the one behind them is
the only one that can hold the offset or be in the way.  So a claim is made exactly if it is free, and
what covers an offset is the one span that holds it (`claims_exact`).
-/

namespace Workbench.Highlight

variable {spans : List Span} {new s t : Span} {offset stop : Nat}

/-! ## Spans as sets -/

/-- The offsets that a span holds. -/
def Span.offsets (s : Span) : Set Nat := Set.Ico s.start s.stop

theorem Span.nonempty_offsets_iff : s.offsets.Nonempty ↔ s.start < s.stop := Set.nonempty_Ico

/-- Spans that hold something are apart if they have no offset in common. -/
theorem Span.disjoint_iff (hs : s.start < s.stop) (ht : t.start < t.stop) :
    Disjoint s.offsets t.offsets ↔ s.Apart t := by
  rw [Span.offsets, Span.offsets, Set.Ico_disjoint_Ico, Span.Apart]
  omega

/-- Claims: sorted by start, nonempty, and no two with an offset in common. -/
structure Claimed (spans : List Span) : Prop where
  nonempty : ∀ s ∈ spans, s.offsets.Nonempty
  sorted : spans.Pairwise fun s t => s.start ≤ t.start
  disjoint : spans.Pairwise fun s t => Disjoint s.offsets t.offsets

/-- **Claims are in order**: each ends before the next begins. -/
theorem claimed_iff : Claimed spans ↔ Ordered spans := by
  constructor
  · rintro ⟨hnonempty, hsorted, hdisjoint⟩
    have hholding : ∀ s ∈ spans, s.start < s.stop := fun s hs =>
      Span.nonempty_offsets_iff.mp (hnonempty s hs)
    refine ⟨hholding, (hsorted.and hdisjoint).imp_of_mem fun {s t} hs ht hst => ?_⟩
    have hlt := hholding t ht
    rcases (Span.disjoint_iff (hholding s hs) hlt).mp hst.2 with hbefore | hbehind
    · exact hbefore
    · have := hst.1
      omega
  · intro h
    refine ⟨fun s hs => Span.nonempty_offsets_iff.mpr (h.holding s hs), ?_, ?_⟩
    · exact h.pairwise.imp_of_mem fun hs _ hst => (h.holding _ hs).le.trans hst
    · exact h.pairwise.imp_of_mem fun hs ht hst =>
        (Span.disjoint_iff (h.holding _ hs) (h.holding _ ht)).mpr (.inl hst)

/-! ## The neighbour of an offset -/

/-- Where a list is cut in two by a property, the places of those that have it come first. -/
theorem getElem_append_iff {α : Type} {p : α → Prop} {before behind : List α}
    (hbefore : ∀ a ∈ before, p a) (hbehind : ∀ a ∈ behind, ¬ p a) (i : Nat)
    (hi : i < (before ++ behind).length) : p (before ++ behind)[i] ↔ i < before.length := by
  rw [List.getElem_append]
  split
  · next h => exact iff_of_true (hbefore _ (List.getElem_mem h)) h
  · next h => exact iff_of_false (hbehind _ (List.getElem_mem _)) h

/-- **The spans that end at or before an offset come first**, so that a search by halves finds how
many they are. -/
theorem Ordered.exists_partition (h : Ordered spans) (offset : Nat) :
    ∃ n, endingAfter offset spans = spans.drop n ∧
      ∀ i (hi : i < spans.length), spans[i].stop ≤ offset ↔ i < n := by
  have hsplit := endingBefore_append_endingAfter offset spans
  refine ⟨(endingBefore offset spans).length, ?_, ?_⟩
  · calc endingAfter offset spans
        = (endingBefore offset spans ++ endingAfter offset spans).drop
            (endingBefore offset spans).length := List.drop_left.symm
      _ = spans.drop (endingBefore offset spans).length := by rw [hsplit]
  · have hbefore : ∀ s ∈ endingBefore offset spans, s.stop ≤ offset := fun s => stop_le_of_mem
    have hbehind : ∀ s ∈ endingAfter offset spans, ¬ s.stop ≤ offset := fun s hs =>
      Nat.not_le.mpr (h.lt_stop_of_mem hs)
    have hplace := getElem_append_iff hbefore hbehind
    rwa [hsplit] at hplace

/-- What holds an offset is the first of the spans that end behind it. -/
theorem Ordered.endingAfter_eq_cons (h : Ordered spans) (hs : s ∈ spans) (hoffset : offset ∈ s.offsets) :
    ∃ later, endingAfter offset spans = s :: later := by
  obtain ⟨hstart, hlt⟩ := hoffset
  have hafter : s ∈ endingAfter offset spans :=
    ((mem_iff_before_or_after offset).mp hs).resolve_left fun hbefore =>
      absurd (stop_le_of_mem hbefore) (Nat.not_le.mpr hlt)
  have hpairwise := h.pairwise.sublist (List.dropWhile_sublist fun s => s.stop ≤ offset)
  rw [← endingAfter] at hpairwise
  cases hfirst : endingAfter offset spans with
  | nil =>
    rw [hfirst] at hafter
    cases hafter
  | cons first later =>
    have hbehind : offset < first.stop := h.lt_stop_of_mem (hfirst ▸ List.mem_cons_self)
    rw [hfirst] at hafter hpairwise
    rcases List.mem_cons.mp hafter with rfl | hlater
    · exact ⟨later, rfl⟩
    · have := (List.pairwise_cons.mp hpairwise).1 s hlater
      omega

/-- **What covers an offset** is the one span that holds it. -/
theorem Ordered.covering_eq_some_iff (h : Ordered spans) : covering offset spans = some stop ↔
    ∃ s ∈ spans, offset ∈ s.offsets ∧ s.stop = stop ∧ ∀ t ∈ spans, offset ∈ t.offsets → t = s := by
  constructor
  · intro hcovering
    obtain ⟨s, hs, hstart, hlt, hstop⟩ := h.exists_of_covering hcovering
    refine ⟨s, hs, ⟨hstart, hlt⟩, hstop, fun t ht hoffset => ?_⟩
    obtain ⟨later, hlater⟩ := h.endingAfter_eq_cons hs ⟨hstart, hlt⟩
    obtain ⟨later', hlater'⟩ := h.endingAfter_eq_cons ht hoffset
    exact (List.cons_eq_cons.mp (hlater'.symm.trans hlater)).1
  · rintro ⟨s, hs, hoffset, rfl, -⟩
    obtain ⟨later, hlater⟩ := h.endingAfter_eq_cons hs hoffset
    rw [covering, hlater]
    exact if_pos hoffset.1

/-! ## Claims -/

/-- A claim is made exactly if it has something in it and nothing in common with the others. -/
theorem Ordered.isSome_claim?_iff (h : Ordered spans) : (claim? spans new).isSome ↔
    new.offsets.Nonempty ∧ ∀ s ∈ spans, Disjoint new.offsets s.offsets := by
  rw [Option.isSome_iff_exists, h.exists_claim?_iff, Span.nonempty_offsets_iff]
  refine and_congr_right fun hnew => forall₂_congr fun s hs => ?_
  rw [Span.disjoint_iff hnew (h.holding s hs)]

/-- **Claims are exact.**  A match is claimed exactly if its span has something in it and no offset in
common with any span that is there.  Then it is there too, at its place among the others, and nothing
else has changed; if not, nothing has.  What covers an offset is the end of the one span that holds
it.  To find the place of an offset it is enough to search by halves. -/
theorem claims_exact (h : Claimed spans) :
    (∀ m : Match, (claim? spans m.span).isSome ↔
      m.span.offsets.Nonempty ∧ ∀ s ∈ spans, Disjoint m.span.offsets s.offsets) ∧
    (∀ m : Match, (claim? spans m.span).isSome → Claimed (offer spans m).1 ∧
      ∃ before behind, spans = before ++ behind ∧ (offer spans m).1 = before ++ m.span :: behind) ∧
    (∀ m : Match, ¬ (claim? spans m.span).isSome → (offer spans m).1 = spans) ∧
    (∀ offset stop, covering offset spans = some stop ↔ ∃ s ∈ spans, offset ∈ s.offsets ∧
      s.stop = stop ∧ ∀ t ∈ spans, offset ∈ t.offsets → t = s) ∧
    ∀ offset, ∃ n, endingAfter offset spans = spans.drop n ∧
      ∀ i (hi : i < spans.length), spans[i].stop ≤ offset ↔ i < n := by
  have hordered : Ordered spans := claimed_iff.mp h
  refine ⟨fun m => hordered.isSome_claim?_iff, fun m hclaim => ?_, fun m hclaim => ?_,
    fun _ _ => hordered.covering_eq_some_iff, hordered.exists_partition⟩
  · obtain ⟨spans', hclaim⟩ := Option.isSome_iff_exists.mp hclaim
    rw [offer_fst, hclaim, Option.getD_some]
    refine ⟨claimed_iff.mpr (hordered.claim hclaim), endingBefore m.span.start spans,
      endingAfter m.span.start spans, ?_, ?_⟩
    · exact (endingBefore_append_endingAfter _ _).symm
    · exact (claim?_eq_some_iff.mp hclaim).2.symm
  · rw [offer_fst, Option.not_isSome_iff_eq_none.mp hclaim, Option.getD_none]

/-- A span that fills the gap between two others, and an offset at the end of one span and the start
of the next. -/
theorem claims_exact_touching :
    let spans : List Span := [⟨2, 5, .string⟩, ⟨5, 7, .number⟩, ⟨9, 12, .comment⟩]
    let m : Match := ⟨⟨7, none, []⟩, ⟨7, 9, .keyword⟩, 9⟩
    Claimed spans ∧ (claim? spans m.span).isSome ∧ Claimed (offer spans m).1 ∧
      covering 5 spans = some 7 := by
  intro spans m
  have hclaimed : Claimed spans := claimed_iff.mpr ⟨by decide, by decide⟩
  have hclaim : (claim? spans m.span).isSome := by decide
  obtain ⟨-, hkept, -, hcovering, -⟩ := claims_exact hclaimed
  refine ⟨hclaimed, hclaim, (hkept m hclaim).1, (hcovering 5 7).mpr ?_⟩
  exact ⟨⟨5, 7, .number⟩, by decide, by simp [Span.offsets], rfl, by simp [spans, Span.offsets]⟩

end Workbench.Highlight
