import Workbench.Proofs.Highlight.Decode

/-!
# Proofs/Highlight/Slice — markup is made of good slices

A **checked** slice of a source has no answer for offsets that are the wrong way round, beyond the
end or inside a character (`slice?`).  Rendered with checked slices (`render?`), a source has markup
exactly with spans that fit it, and then it is the markup as it is (`render?_eq_some_iff`).  The
spans of a source are in order, apart from each other and on boundaries, so they fit
(`tokenize_slices`).
-/

namespace Workbench.Highlight

open Text (bytes floorBoundary slice splitBytes splitBytes_append splitBytes_bytes bytes_splitBytes)

variable {source t : Text} {s : Span} {spans : List Span} {start stop offset i j k : Nat}

/-! ## Checked slices -/

/-- Cut at the offset of a place, a source falls apart at that place. -/
theorem splitBytes_offsetAt (source : Text) (k : Nat) :
    splitBytes source (offsetAt source k) = (source.take k, source.drop k) := by
  have hcut := splitBytes_bytes (source.take k) (source.drop k)
  rwa [List.take_append_drop] at hcut

/-- An offset is that of a place if it need not be moved to be one. -/
theorem isBoundary_iff : IsBoundary source offset ↔ floorBoundary source offset = offset := by
  rw [← bytes_splitBytes]
  constructor
  · rintro ⟨k, -, rfl⟩
    rw [splitBytes_offsetAt, offsetAt]
  · intro h
    have hsource : (splitBytes source offset).1 <+: source :=
      ⟨(splitBytes source offset).2, splitBytes_append source offset⟩
    refine ⟨(splitBytes source offset).1.length, hsource.length_le, ?_⟩
    rw [offsetAt, ← List.prefix_iff_eq_take.mp hsource, h]

theorem isBoundary_zero (source : Text) : IsBoundary source 0 := ⟨0, Nat.zero_le _, rfl⟩

theorem isBoundary_bytes (source : Text) : IsBoundary source (bytes source) :=
  ⟨source.length, le_rfl, (offsetAt_length source).symm⟩

theorem IsBoundary.le_bytes (h : IsBoundary source offset) : offset ≤ bytes source := by
  obtain ⟨k, hk, rfl⟩ := h
  rw [← offsetAt_length]
  exact monotone_offsetAt source hk

instance IsBoundary.instDecidable : Decidable (IsBoundary source offset) :=
  decidable_of_iff _ isBoundary_iff.symm

/-- The text between two offsets, if they are in order and each is that of a place. -/
def slice? (source : Text) (start stop : Nat) : Option Text :=
  if start ≤ stop ∧ IsBoundary source start ∧ IsBoundary source stop then
    some (slice source start stop)
  else none

/-- A slice is there if its ends are in order and on boundaries. -/
theorem slice?_eq_some_iff : slice? source start stop = some t ↔
    (start ≤ stop ∧ IsBoundary source start ∧ IsBoundary source stop) ∧
      slice source start stop = t := by
  rw [slice?, Option.ite_none_right_eq_some, Option.some.injEq]

example : slice? "aé" 1 2 = none ∧ slice? "aé" 1 3 = some "é" ∧ slice? "aé" 3 1 = none := by
  decide

theorem slice_offsetAt (source : Text) (k stop : Nat) : slice source (offsetAt source k) stop =
    (splitBytes (source.drop k) (stop - offsetAt source k)).1 := by
  rw [slice, splitBytes_offsetAt]

/-- Up to the end, all of the rest is sliced off. -/
theorem slice_bytes (source : Text) (k : Nat) :
    slice source (offsetAt source k) (bytes source) = source.drop k := by
  have hbytes : bytes source = offsetAt source k + bytes (source.drop k) := by
    rw [offsetAt, ← Text.bytes_append, List.take_append_drop]
  have hcut : splitBytes (source.drop k) (bytes (source.drop k)) = (source.drop k, []) := by
    simpa using splitBytes_bytes (source.drop k) []
  rw [slice_offsetAt, hbytes, Nat.add_sub_cancel_left, hcut]

/-! ## Checked markup -/

/-- The markup of a source from `offset` on, made of checked slices. -/
def renderFrom? (source : Text) (offset : Nat) : List Span → Option Text
  | [] => (slice? source offset (bytes source)).map escaped
  | s :: spans => do
    let gap ← slice? source offset s.start
    let body ← slice? source s.start s.stop
    let rest ← renderFrom? source s.stop spans
    return escaped gap ++ openTag s.kind ++ escaped body ++ closeTag ++ rest

/-- The markup of a source, made of checked slices. -/
def render? (source : Text) (spans : List Span) : Option Text := renderFrom? source 0 spans

/-- Spans that a source can be marked up with from an offset on. -/
structure FitsFrom (source : Text) (offset : Nat) (spans : List Span) : Prop
    extends Fits source spans where
  behind : ∀ s ∈ spans, offset ≤ s.start

/-- Spans fit if the first does and the others fit behind it. -/
theorem fitsFrom_cons_iff : FitsFrom source offset (s :: spans) ↔
    (offset ≤ s.start ∧ s.start ≤ s.stop ∧ IsBoundary source s.start ∧ IsBoundary source s.stop) ∧
      FitsFrom source s.stop spans := by
  constructor
  · rintro ⟨⟨hsorted, hforward, hbounded⟩, hbehind⟩
    rw [List.pairwise_cons] at hsorted
    rw [List.forall_mem_cons] at hforward hbounded hbehind
    exact ⟨⟨hbehind.1, hforward.1, hbounded.1⟩, ⟨hsorted.2, hforward.2, hbounded.2⟩, hsorted.1⟩
  · rintro ⟨⟨hoffset, hstart, hplaces⟩, ⟨hsorted, hforward, hbounded⟩, hbehind⟩
    refine ⟨⟨List.pairwise_cons.mpr ⟨hbehind, hsorted⟩, List.forall_mem_cons.mpr ⟨hstart, hforward⟩,
      List.forall_mem_cons.mpr ⟨hplaces, hbounded⟩⟩, List.forall_mem_cons.mpr ⟨hoffset, ?_⟩⟩
    exact fun t ht => hoffset.trans (hstart.trans (hbehind t ht))

/-- Between places, the markup of a span is made of slices. -/
theorem renderFrom_cons (hki : k ≤ i) (hij : i ≤ j) (kind : Kind) :
    renderFrom (offsetAt source k) (source.drop k) (spanOf source i j kind :: spans) =
      escaped (slice source (offsetAt source k) (offsetAt source i)) ++ openTag kind ++
        escaped (slice source (offsetAt source i) (offsetAt source j)) ++ closeTag ++
        renderFrom (offsetAt source j) (source.drop j) spans := by
  obtain ⟨gap, hgap, -⟩ := splitBytes_drop source hki
  obtain ⟨body, hbody, -⟩ := splitBytes_drop source hij
  simp only [renderFrom, spanOf, slice_offsetAt, hgap, hbody]

/-- A checked rendering gives the markup exactly if the spans fit. -/
theorem renderFrom?_eq_some_iff (hk : k ≤ source.length) :
    renderFrom? source (offsetAt source k) spans = some t ↔
      FitsFrom source (offsetAt source k) spans ∧
        renderFrom (offsetAt source k) (source.drop k) spans = t := by
  induction spans generalizing k t with
  | nil =>
    have hfits : FitsFrom source (offsetAt source k) [] := ⟨⟨.nil, nofun, nofun⟩, nofun⟩
    have hend : bytes source = offsetAt source source.length := (offsetAt_length source).symm
    have hslice : slice? source (offsetAt source k) (bytes source) = some (source.drop k) :=
      slice?_eq_some_iff.mpr ⟨⟨hend ▸ monotone_offsetAt source hk, ⟨k, hk, rfl⟩,
        ⟨source.length, le_rfl, hend⟩⟩, slice_bytes source k⟩
    rw [renderFrom?, renderFrom, hslice, Option.map_some, Option.some.injEq, and_iff_right hfits]
  | cons s spans ih =>
    rw [renderFrom?, fitsFrom_cons_iff]
    constructor
    · intro h
      obtain ⟨gap, hgap, h⟩ := Option.bind_eq_some_iff.mp h
      obtain ⟨body, hbody, h⟩ := Option.bind_eq_some_iff.mp h
      obtain ⟨rest, hrest, h⟩ := Option.bind_eq_some_iff.mp h
      obtain ⟨⟨hbefore, -, hstart⟩, rfl⟩ := slice?_eq_some_iff.mp hgap
      obtain ⟨⟨hforward, -, hstop⟩, rfl⟩ := slice?_eq_some_iff.mp hbody
      obtain ⟨start, stop, kind⟩ := s
      obtain ⟨⟨i, hi, rfl⟩, ⟨j, hj, rfl⟩⟩ := And.intro hstart hstop
      obtain ⟨hfits, rfl⟩ := (ih hj).mp hrest
      refine ⟨⟨⟨hbefore, hforward, hstart, hstop⟩, hfits⟩, ?_⟩
      rw [← Option.some.inj h]
      refine renderFrom_cons ?_ ?_ kind
      · exact (offsetAt_le_iff hk).mp hbefore
      · exact (offsetAt_le_iff hi).mp hforward
    · rintro ⟨⟨⟨hbefore, hforward, hstart, hstop⟩, hfits⟩, rfl⟩
      obtain ⟨start, stop, kind⟩ := s
      obtain ⟨⟨i, hi, rfl⟩, ⟨j, hj, rfl⟩⟩ := And.intro hstart hstop
      rw [slice?_eq_some_iff.mpr ⟨⟨hbefore, ⟨k, hk, rfl⟩, hstart⟩, rfl⟩,
        slice?_eq_some_iff.mpr ⟨⟨hforward, hstart, hstop⟩, rfl⟩, (ih hj).mpr ⟨hfits, rfl⟩]
      refine congrArg some (renderFrom_cons ?_ ?_ kind).symm
      · exact (offsetAt_le_iff hk).mp hbefore
      · exact (offsetAt_le_iff hi).mp hforward

/-- **Checked markup** is there exactly for spans that fit the source, and is the markup as it
is. -/
theorem render?_eq_some_iff :
    render? source spans = some t ↔ Fits source spans ∧ render source spans = t := by
  have hiff : FitsFrom source 0 spans ↔ Fits source spans :=
    ⟨FitsFrom.toFits, fun h => ⟨h, fun _ _ => Nat.zero_le _⟩⟩
  rw [← hiff]
  exact renderFrom?_eq_some_iff (Nat.zero_le _)

/-! ## The spans of a source -/

/-- **The spans of a source** hold something, begin one behind the other, are apart from each other,
and lie within the source from one boundary to another; so every slice that its markup is made of is
a good one. -/
theorem tokenize_slices (lang : Language) (source : Text) :
    let spans := tokenize lang source
    (∀ s ∈ spans, s.start < s.stop ∧ s.stop ≤ bytes source ∧
      IsBoundary source s.start ∧ IsBoundary source s.stop) ∧
    spans.Pairwise (fun s t => s.start < t.start) ∧
    spans.Pairwise Span.Apart ∧
    render? source spans = some (render source spans) := by
  intro spans
  have hlaid : Laid source spans := laid_tokenize lang source
  refine ⟨fun s hs => ?_, ?_, hlaid.pairwise.imp .inl, ?_⟩
  · obtain ⟨hholding, hbounded⟩ := bounds_of_mem_tokenize hs
    exact ⟨hholding, hbounded, isBoundary_of_mem_tokenize hs⟩
  · refine hlaid.pairwise.imp_of_mem fun hs _ hst => ?_
    exact (hlaid.holding _ hs).trans_le hst
  · exact render?_eq_some_iff.mpr ⟨fits_tokenize lang source, rfl⟩

end Workbench.Highlight
