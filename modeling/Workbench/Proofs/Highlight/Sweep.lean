import Workbench.Proofs.Highlight.Claim
import Workbench.Proofs.Highlight.Place

/-!
# Proofs/Highlight/Sweep — what a sweep claims

A sweep claims spans of what is recognised, one after the other, and keeps all that is there
(`sweep_invariant`).  It may pass over places, though: behind a claim it goes on behind all that was
read, and behind a span in the way at the end of that span.  If nothing is recognised inside of what
was read at another place, no place is passed over in vain, and a sweep claims all that is recognised
apart from the spans before it (`mem_sweep_iff`).
-/

namespace Workbench.Highlight

variable {source : Text} {r : Recogniser} {l : Lexeme} {spans spans' : List Span} {s : Span}
  {i j k : Nat}

/-! ## The span of a lexeme -/

/-- The span from one place to another. -/
def spanOf (source : Text) (j k : Nat) (kind : Kind) : Span :=
  ⟨offsetAt source j, offsetAt source k, kind⟩

/-- A recogniser reads what is there in a source. -/
def Recogniser.Reads (r : Recogniser) (source : Text) : Prop :=
  ∀ j l, recognise r source j = some l → l.body ++ l.tail <+: source.drop j

/-- The number of characters that were read. -/
def Lexeme.length (l : Lexeme) : Nat := (l.body ++ l.tail).length

theorem offsetAt_of_prefix {t : Text} (h : t <+: source.drop j) :
    offsetAt source (j + t.length) = offsetAt source j + Text.bytes t := by
  rw [offsetAt_add, ← List.prefix_iff_eq_take.mp h]

theorem length_of_prefix {t : Text} (h : t <+: source.drop j) (hj : j ≤ source.length) :
    j + t.length ≤ source.length := by
  have := h.length_le
  rw [List.length_drop] at this
  omega

namespace Recogniser.Reads

variable (hr : r.Reads source)

include hr

theorem span_eq (h : recognise r source j = some l) : (Match.ofLexeme (placeAt source j) l).span =
    spanOf source j (j + l.body.length) l.kind := by
  have hbody : l.body <+: source.drop j := (List.prefix_append _ _).trans (hr _ _ h)
  rw [spanOf, offsetAt_of_prefix hbody]
  rfl

theorem stop_eq (h : recognise r source j = some l) : (Match.ofLexeme (placeAt source j) l).stop =
    offsetAt source (j + l.length) := by
  rw [Lexeme.length, offsetAt_of_prefix (hr _ _ h), Text.bytes_append, ← Nat.add_assoc]
  rfl

theorem length_le (h : recognise r source j = some l) (hj : j ≤ source.length) :
    j + l.body.length ≤ source.length :=
  length_of_prefix ((List.prefix_append _ _).trans (hr _ _ h)) hj

end Recogniser.Reads

/-! ## What every claim keeps, a sweep keeps -/

theorem offer_fst (spans : List Span) (m : Match) :
    (offer spans m).1 = (claim? spans m.span).getD spans := by
  unfold offer
  split <;> simp_all

/-- What every claim of something recognised keeps, a sweep keeps. -/
theorem sweep_invariant {P : List Span → Prop}
    (hclaim : ∀ spans spans' j l, j ≤ source.length → recognise r source j = some l →
      claim? spans (Match.ofLexeme (placeAt source j) l).span = some spans' → P spans → P spans')
    (hk : k ≤ source.length) (hspans : P spans) :
    P (sweep (leftmost r) spans (placeAt source k)) := by
  have hoffer {k spans m} (hk : k ≤ source.length) (hspans : P spans)
      (hm : leftmost r (placeAt source k) = some m) : P (offer spans m).1 := by
    obtain ⟨j, l, -, hj, hl, rfl, -⟩ := exists_of_leftmost hk hm
    rw [offer_fst]
    cases hspans' : claim? spans (Match.ofLexeme (placeAt source j) l).span with
    | none => exact hspans
    | some spans' => exact hclaim spans spans' j l hj hl hspans' hspans
  generalize hc : placeAt source k = c
  fun_induction sweep (leftmost r) spans c generalizing k with
  | case1 => exact hspans
  | case2 spans c m hm after next onward =>
    rename_i ih
    subst hc
    obtain ⟨j, l, -, hj, -, rfl, -⟩ := exists_of_leftmost hk hm
    obtain ⟨i, -, hi, hseek, -⟩ := exists_seek after.2 hj
    exact ih hi (hoffer hk hspans hm) hseek.symm
  | case3 spans c m hm after next =>
    subst hc
    exact hoffer hk hspans hm

/-- A sweep keeps the order. -/
theorem Ordered.sweep (h : Ordered spans) (hk : k ≤ source.length) :
    Ordered (sweep (leftmost r) spans (placeAt source k)) :=
  sweep_invariant (fun _ _ _ _ _ _ hclaim h => h.claim hclaim) hk h

/-- A sweep keeps every span. -/
theorem mem_sweep_of_mem (hk : k ≤ source.length) (hs : s ∈ spans) :
    s ∈ sweep (leftmost r) spans (placeAt source k) :=
  sweep_invariant (P := (s ∈ ·)) (fun _ _ _ _ _ _ hclaim h => (mem_of_claim? hclaim).mpr (.inr h))
    hk hs

/-- A sweep adds nothing but what is recognised. -/
theorem Recogniser.Reads.exists_of_mem_sweep (hr : r.Reads source) (hk : k ≤ source.length)
    (hs : s ∈ sweep (leftmost r) spans (placeAt source k)) :
    s ∈ spans ∨ ∃ j l, j ≤ source.length ∧ recognise r source j = some l ∧
      s = spanOf source j (j + l.body.length) l.kind := by
  refine sweep_invariant (P := fun spans' => ∀ s ∈ spans', s ∈ spans ∨ ∃ j l, j ≤ source.length ∧
    recognise r source j = some l ∧ s = spanOf source j (j + l.body.length) l.kind) ?_ hk
    (fun s hs => .inl hs) s hs
  intro spans spans' j l hj hl hclaim hspans s hs
  rcases (mem_of_claim? hclaim).mp hs with rfl | hs
  · exact .inr ⟨j, l, hj, hl, hr.span_eq hl⟩
  · exact hspans s hs

/-! ## Nothing is passed over -/

/-- Nothing is recognised inside of what was read at another place. -/
def Separated (r : Recogniser) (source : Text) : Prop :=
  ∀ i j l l', recognise r source i = some l → recognise r source j = some l' → i < j →
    i + l.length ≤ j

/-- Spans that lie in order on a source, each of which ends at a place of it. -/
structure Laid (source : Text) (spans : List Span) : Prop extends Ordered spans where
  placed : ∀ s ∈ spans, ∃ k ≤ source.length, s.stop = offsetAt source k

namespace Laid

theorem nil : Laid source [] := ⟨.nil, nofun⟩

theorem claim (h : Laid source spans) (hr : r.Reads source) (hj : j ≤ source.length)
    (hl : recognise r source j = some l)
    (hclaim : claim? spans (Match.ofLexeme (placeAt source j) l).span = some spans') :
    Laid source spans' := by
  refine ⟨h.toOrdered.claim hclaim, fun s hs => ?_⟩
  rcases (mem_of_claim? hclaim).mp hs with rfl | hs
  · exact ⟨_, hr.length_le hl hj, by rw [hr.span_eq hl]; rfl⟩
  · exact h.placed s hs

theorem sweep (h : Laid source spans) (hr : r.Reads source) :
    Laid source (sweep (leftmost r) spans (.first source)) :=
  sweep_invariant (fun _ _ _ _ hj hl hclaim h => h.claim hr hj hl hclaim) (Nat.zero_le _) h

end Laid

/-- Spans that leave room for what is recognised at a place. -/
structure Room (source : Text) (j : Nat) (l : Lexeme) (spans : List Span) : Prop
    extends Laid source spans where
  apart : ∀ s ∈ spans, (spanOf source j (j + l.body.length) l.kind).Apart s

variable {l' : Lexeme}

/-- What is recognised before a place leaves room for what is recognised there. -/
theorem Room.offer (h : Room source j l' spans) (hr : r.Reads source) (hsep : Separated r source)
    (hij : i < j) (hj : j ≤ source.length) (hl : recognise r source i = some l)
    (hl' : recognise r source j = some l') :
    Room source j l' (offer spans (.ofLexeme (placeAt source i) l)).1 := by
  rw [offer_fst]
  cases hclaim : claim? spans (Match.ofLexeme (placeAt source i) l).span with
  | none => exact h
  | some spans' =>
    refine ⟨h.toLaid.claim hr (by omega) hl hclaim, fun s hs => ?_⟩
    rcases (mem_of_claim? hclaim).mp hs with rfl | hs
    · have hbehind : i + l.body.length ≤ j := by
        have := hsep i j l l' hl hl' hij
        rw [Lexeme.length, List.length_append] at this
        omega
      rw [hr.span_eq hl]
      exact .inr (monotone_offsetAt source hbehind)
    · exact h.apart s hs

/-- Behind a claim, a sweep goes on behind all that was read. -/
theorem Recogniser.Reads.offer_of_claim (hr : r.Reads source) (hl : recognise r source i = some l)
    (hclaim : claim? spans (Match.ofLexeme (placeAt source i) l).span = some spans') :
    offer spans (.ofLexeme (placeAt source i) l) = (spans', offsetAt source (i + l.length)) := by
  have hlt : (placeAt source i).offset < (Match.ofLexeme (placeAt source i) l).stop := by
    obtain ⟨⟨hlt, -⟩, -⟩ := claim?_eq_some_iff.mp hclaim
    exact Nat.lt_of_lt_of_le hlt (Nat.le_add_right _ _)
  rw [Highlight.offer, hclaim]
  dsimp only
  rw [resume, if_pos ⟨rfl, hlt⟩, hr.stop_eq hl]

/-- Behind a match that is refused, a sweep goes on at the end of the span that holds the place of the
match, or at the next place. -/
theorem Laid.exists_refused (h : Laid source spans) (hi : i < source.length)
    (hclaim : claim? spans (Match.ofLexeme (placeAt source i) l).span = none) :
    ∃ k, i < k ∧ k ≤ source.length ∧
      offer spans (.ofLexeme (placeAt source i) l) = (spans, offsetAt source k) ∧
      (k = i + 1 ∨ ∃ s ∈ spans, s.start ≤ offsetAt source i ∧ offsetAt source i < s.stop ∧
        s.stop = offsetAt source k) := by
  have hnext : (Match.ofLexeme (placeAt source i) l).place.following = offsetAt source (i + 1) :=
    following_placeAt hi
  have hplace : (Match.ofLexeme (placeAt source i) l).place.offset = offsetAt source i := rfl
  rw [Highlight.offer, hclaim]
  dsimp only
  rw [resume, if_neg (by simp), hnext, hplace]
  cases hcovering : covering (offsetAt source i) spans with
  | some stop =>
    obtain ⟨s, hs, hstart, hstop, rfl⟩ := h.toOrdered.exists_of_covering hcovering
    obtain ⟨k, hk, hend⟩ := h.placed s hs
    have hik : i < k := (offsetAt_lt_iff hk).mp (hend ▸ hstop)
    have hresume : max s.stop (offsetAt source (i + 1)) = offsetAt source k := by
      rw [hend]
      exact Nat.max_eq_left (monotone_offsetAt source hik)
    exact ⟨k, hik, hk, congrArg _ hresume, .inr ⟨s, hs, hstart, hstop, hend⟩⟩
  | none => exact ⟨i + 1, Nat.lt_succ_self i, hi, rfl, .inl rfl⟩

/-- Behind what is recognised before a place that has room, a sweep does not go beyond the place. -/
theorem Room.exists_offer (h : Room source j l' spans) (hr : r.Reads source) (hsep : Separated r source)
    (hij : i < j) (hj : j ≤ source.length) (hl : recognise r source i = some l)
    (hl' : recognise r source j = some l') (hbody : l'.body ≠ []) :
    ∃ k, i < k ∧ k ≤ j ∧
      (Highlight.offer spans (.ofLexeme (placeAt source i) l)).2 = offsetAt source k := by
  cases hclaim : claim? spans (Match.ofLexeme (placeAt source i) l).span with
  | some spans' =>
    rw [hr.offer_of_claim hl hclaim]
    refine ⟨i + l.length, ?_, hsep i j l l' hl hl' hij, rfl⟩
    obtain ⟨⟨hlt, -⟩, -⟩ := claim?_eq_some_iff.mp hclaim
    rw [hr.span_eq hl] at hlt
    have hbody : i < i + l.body.length := (offsetAt_lt_iff (hr.length_le hl (by omega))).mp hlt
    rw [Lexeme.length, List.length_append]
    omega
  | none =>
    obtain ⟨k, hik, hk, hoffer, hnext⟩ := h.toLaid.exists_refused (by omega) hclaim
    rw [hoffer]
    refine ⟨k, hik, ?_, rfl⟩
    rcases hnext with rfl | ⟨t, ht, hstart, -, hstop⟩
    · exact hij
    · -- the span in the way ends before the place, whose own span is apart from it
      refine (offsetAt_le_iff hk).mp ?_
      have hbehind : offsetAt source j < offsetAt source (j + l'.body.length) :=
        offsetAt_lt (Nat.lt_add_of_pos_right (List.length_pos_iff.mpr hbody)) (hr.length_le hl' hj)
      have hbefore : offsetAt source i < offsetAt source j := offsetAt_lt hij hj
      rcases h.apart t ht with hafter | hahead
      · have hafter : offsetAt source (j + l'.body.length) ≤ t.start := hafter
        omega
      · exact hstop ▸ hahead

/-- What has room is not passed over. -/
theorem Room.mem_sweep (h : Room source j l spans) (hr : r.Reads source) (hsep : Separated r source)
    (hkj : k ≤ j) (hj : j ≤ source.length) (hl : recognise r source j = some l)
    (hbody : l.body ≠ []) :
    spanOf source j (j + l.body.length) l.kind ∈ sweep (leftmost r) spans (placeAt source k) := by
  have hclaimed {spans} (h : Room source j l spans) :
      spanOf source j (j + l.body.length) l.kind ∈
        (Highlight.offer spans (.ofLexeme (placeAt source j) l)).1 := by
    have hlt : offsetAt source j < offsetAt source (j + l.body.length) :=
      offsetAt_lt (Nat.lt_add_of_pos_right (List.length_pos_iff.mpr hbody)) (hr.length_le hl hj)
    obtain ⟨spans', hclaim⟩ := h.toOrdered.exists_claim?_iff.mpr ⟨hlt, h.apart⟩
    rw [offer_fst, hr.span_eq hl, hclaim]
    exact (mem_of_claim? hclaim).mpr (.inl rfl)
  -- a match before the place leaves it room, and the sweep goes on at a place not beyond it
  have honward {k spans m} (h : Room source j l spans) (hkj : k ≤ j)
      (hm : leftmost r (placeAt source k) = some m) :
      m = .ofLexeme (placeAt source j) l ∨ Room source j l (Highlight.offer spans m).1 ∧
        ∃ k', k < k' ∧ k' ≤ j ∧ (Highlight.offer spans m).2 = offsetAt source k' ∧
          m.place.seek (offsetAt source k') = placeAt source k' := by
    obtain ⟨i, l₀, hki, -, hl₀, rfl, hbefore⟩ := exists_of_leftmost (Nat.le_trans hkj hj) hm
    rcases Nat.lt_trichotomy i j with hij | rfl | hji
    · obtain ⟨k', hk', hk'j, hstop⟩ := h.exists_offer hr hsep hij hj hl₀ hl hbody
      exact .inr ⟨h.offer hr hsep hij hj hl₀ hl, k', by omega, hk'j, hstop,
        seek_offsetAt (by omega) (by omega)⟩
    · rw [hl₀] at hl
      exact .inl (by rw [Option.some.inj hl])
    · rw [hbefore j hkj hji] at hl
      cases hl
  generalize hc : placeAt source k = c
  fun_induction sweep (leftmost r) spans c generalizing k with
  | case1 spans c hm =>
    subst hc
    rw [recognise_of_leftmost (Nat.le_trans hkj hj) hm j hkj hj] at hl
    cases hl
  | case2 spans c m hm after next onward =>
    rename_i ih
    subst hc
    rcases honward h hkj hm with rfl | ⟨hroom, k', -, hk'j, hstop, hseek⟩
    · obtain ⟨i, -, hi, hseek, -⟩ := exists_seek after.2 hj
      rw [show next = placeAt source i from hseek]
      exact mem_sweep_of_mem hi (hclaimed h)
    · exact ih hroom hk'j (by rw [← hseek, ← hstop])
  | case3 spans c m hm after next =>
    rename_i hend
    subst hc
    rcases honward h hkj hm with rfl | ⟨-, k', hk', hk'j, hstop, hseek⟩
    · exact hclaimed h
    · -- a sweep does not end where it can go on
      have hnext : next = placeAt source k' := by rw [← hseek, ← hstop]
      refine absurd ⟨by rw [hnext]; exact hstop.symm, ?_⟩ hend
      rw [hnext, placeAt, placeAt, List.length_drop, List.length_drop]
      omega

/-- **A sweep** over separated matches keeps what is there, and claims all that is recognised apart
from it. -/
theorem mem_sweep_iff (hr : r.Reads source) (hsep : Separated r source) (hlaid : Laid source spans) :
    s ∈ sweep (leftmost r) spans (.first source) ↔
      s ∈ spans ∨ ∃ j l, j ≤ source.length ∧ recognise r source j = some l ∧ l.body ≠ [] ∧
        s = spanOf source j (j + l.body.length) l.kind ∧ ∀ t ∈ spans, s.Apart t := by
  rw [first_eq]
  constructor
  · intro hs
    by_cases hold : s ∈ spans
    · exact .inl hold
    · obtain ⟨j, l, hj, hl, rfl⟩ :=
        (hr.exists_of_mem_sweep (Nat.zero_le _) hs).resolve_left hold
      have hsweep : Ordered (sweep (leftmost r) spans (placeAt source 0)) :=
        hlaid.toOrdered.sweep (Nat.zero_le _)
      refine .inr ⟨j, l, hj, hl, ?_, rfl, fun t ht => ?_⟩
      · rintro hbody
        have := hsweep.holding _ hs
        rw [spanOf, hbody] at this
        exact absurd this (Nat.lt_irrefl _)
      · exact hsweep.apart hs (mem_sweep_of_mem (Nat.zero_le _) ht)
          fun heq => hold (heq ▸ ht)
  · rintro (hs | ⟨j, l, hj, hl, hbody, rfl, hapart⟩)
    · exact mem_sweep_of_mem (Nat.zero_le _) hs
    · exact Room.mem_sweep ⟨hlaid, hapart⟩ hr hsep (Nat.zero_le _) hj hl hbody

end Workbench.Highlight
