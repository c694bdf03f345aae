import Workbench.Proofs.Highlight.Slice

/-!
# Proofs/Highlight/Progress — a sweep goes on to the right, and ends

A sweep is a loop: each pass searches from an offset, offers what it finds and goes on at another
offset.  All that is asked of a search is that its matches begin at or behind the place where it
began, and have their ends on boundaries (`Search.Sound`).  Then every pass goes on farther right,
at a boundary or right behind the end (`Laid.onward_resume`): behind a claim, behind a span in the
way, or behind one character.  So there are no more passes than there are offsets, and what the loop
comes to is the sweep (`Progresses`), in every tier of every language (`tiers_progress`).
-/

namespace Workbench.Highlight

open Text (bytes)

variable {source : Text} {search : Search} {spans spans' : List Span} {m : Match}
  {offset other j k n : Nat}

/-! ## Searches -/

/-- A search whose matches begin at or behind the place where it began, and have their ends, and those
of their spans, on boundaries. -/
structure Search.Sound (search : Search) (source : Text) : Prop where
  begins : ∀ {k m}, k ≤ source.length → search (placeAt source k) = some m →
    ∃ j, k ≤ j ∧ j ≤ source.length ∧ m.place = placeAt source j
  ends : ∀ {k m}, k ≤ source.length → search (placeAt source k) = some m →
    IsBoundary source m.stop ∧ IsBoundary source m.span.stop

/-- A search for what is there is sound. -/
theorem Recogniser.Reads.sound {r : Recogniser} (hr : r.Reads source) : (leftmost r).Sound source where
  begins hk hm := by
    obtain ⟨j, l, hkj, hj, -, rfl, -⟩ := exists_of_leftmost hk hm
    exact ⟨j, hkj, hj, rfl⟩
  ends hk hm := by
    obtain ⟨j, l, -, hj, hl, rfl, -⟩ := exists_of_leftmost hk hm
    rw [hr.stop_eq hl, hr.span_eq hl]
    exact ⟨⟨_, length_of_prefix (hr _ _ hl) hj, rfl⟩, ⟨_, hr.length_le hl hj, rfl⟩⟩

/-! ## Where a pass goes on -/

/-- Where a pass can go on: at a boundary, or right behind the end. -/
def Onward (source : Text) (offset : Nat) : Prop :=
  IsBoundary source offset ∨ offset = bytes source + 1

theorem Onward.isBoundary (h : Onward source offset) (hle : offset ≤ bytes source) :
    IsBoundary source offset := by
  rcases h with h | rfl
  · exact h
  · exact absurd hle (Nat.not_succ_le_self _)

theorem Onward.max (h : Onward source offset) (h' : Onward source other) :
    Onward source (max offset other) := by
  rcases max_choice offset other with hmax | hmax <;> rwa [hmax]

theorem Onward.le (h : Onward source offset) : offset ≤ bytes source + 1 := by
  rcases h with h | rfl
  · exact Nat.le_succ_of_le h.le_bytes
  · exact le_rfl

theorem onward_following (hj : j ≤ source.length) :
    Onward source (placeAt source j).following ∧
      offsetAt source j < (placeAt source j).following := by
  rcases Nat.lt_or_eq_of_le hj with hlt | rfl
  · rw [following_placeAt hlt]
    exact ⟨.inl ⟨j + 1, hlt, rfl⟩, offsetAt_lt (Nat.lt_succ_self j) hlt⟩
  · have hend : (placeAt source source.length).following = offsetAt source source.length + 1 := by
      rw [Cursor.following, placeAt, List.drop_length]
    rw [hend, offsetAt_length]
    exact ⟨.inr rfl, Nat.lt_succ_self _⟩

/-- **Behind a match, a pass goes on farther right**, whether or not the match is claimed. -/
theorem Laid.onward_resume (h : Laid source spans) (hj : j ≤ source.length)
    (hplace : m.place = placeAt source j) (hstop : IsBoundary source m.stop) (claimed : Bool) :
    Onward source (resume spans claimed m) ∧ m.place.offset < resume spans claimed m := by
  have hnext := onward_following hj
  have hoffset : m.place.offset = offsetAt source j := by rw [hplace]; rfl
  rw [← hplace, ← hoffset] at hnext
  rw [resume]
  split
  · next hclaimed => exact ⟨.inl hstop, hclaimed.2⟩
  · cases hcovering : covering m.place.offset spans with
    | none => exact hnext
    | some stop =>
      obtain ⟨s, hs, -, -, rfl⟩ := h.toOrdered.exists_of_covering hcovering
      have hboundary : IsBoundary source s.stop := h.placed s hs
      exact ⟨.max (.inl hboundary) hnext.1, hnext.2.trans_le (le_max_right _ _)⟩

theorem offer_snd (spans : List Span) (m : Match) : (offer spans m).2 =
    resume (offer spans m).1 (claim? spans m.span).isSome m := by
  rw [offer]
  split <;> simp_all

/-- The spans that are claimed, and the offset where the loop is. -/
abbrev State := List Span × Nat

/-- The spans are laid on the source, and the offset is a boundary of it or right behind its end. -/
structure Sited (source : Text) (state : State) : Prop where
  laid : Laid source state.1
  onward : Onward source state.2

variable {state state' : State}

/-- **An offer** is made between the offset and the end, and the loop goes on farther right. -/
theorem Laid.sited_offer (h : Laid source spans) (hj : j ≤ source.length)
    (hplace : m.place = placeAt source j) (hstop : IsBoundary source m.stop)
    (hspan : IsBoundary source m.span.stop) :
    Sited source (Highlight.offer spans m) ∧ offsetAt source j < (Highlight.offer spans m).2 := by
  have hlaid : Laid source (Highlight.offer spans m).1 := by
    rw [offer_fst]
    cases hclaim : claim? spans m.span with
    | none => exact h
    | some spans' =>
      refine ⟨h.toOrdered.claim hclaim, fun s hs => ?_⟩
      rcases (mem_of_claim? hclaim).mp hs with rfl | hs
      · exact hspan
      · exact h.placed s hs
  have honward := hlaid.onward_resume hj hplace hstop (claim? spans m.span).isSome
  rw [← offer_snd, hplace] at honward
  exact ⟨⟨hlaid, honward.1⟩, honward.2⟩

/-! ## Passes -/

/-- The cursor at an offset. -/
def cursorAt (source : Text) (offset : Nat) : Cursor := (Cursor.first source).seek offset

theorem cursorAt_offsetAt (hk : k ≤ source.length) :
    cursorAt source (offsetAt source k) = placeAt source k :=
  seek_offsetAt (Nat.zero_le k) hk

/-- One pass of the loop, if it is not behind the end and there is a match. -/
def pass (search : Search) (source : Text) (state : State) : Option State :=
  if state.2 ≤ bytes source then (search (cursorAt source state.2)).map (offer state.1) else none

theorem pass_offsetAt (hk : k ≤ source.length) : pass search source (spans, offsetAt source k) =
    (search (placeAt source k)).map (offer spans) := by
  have hle : offsetAt source k ≤ bytes source := IsBoundary.le_bytes ⟨k, hk, rfl⟩
  rw [pass, if_pos hle, cursorAt_offsetAt hk]

/-- What a number of passes come to, if there are so many. -/
def passes (search : Search) (source : Text) : Nat → State → Option State
  | 0, state => some state
  | n + 1, state => (pass search source state).bind (passes search source n)

theorem le_of_pass (h : pass search source state = some state') : state.2 ≤ bytes source := by
  by_contra hlt
  rw [pass, if_neg hlt] at h
  cases h

namespace Sited

variable (hsearch : search.Sound source)

include hsearch

/-- **A pass** goes on farther right. -/
theorem of_pass (h : Sited source state) (hpass : pass search source state = some state') :
    Sited source state' ∧ state.2 < state'.2 := by
  obtain ⟨k, hk, hoffset⟩ := h.onward.isBoundary (le_of_pass hpass)
  rw [← Prod.mk.eta (p := state), hoffset, pass_offsetAt hk] at hpass
  obtain ⟨m, hm, rfl⟩ := Option.map_eq_some_iff.mp hpass
  obtain ⟨j, hkj, hj, hplace⟩ := hsearch.begins hk hm
  obtain ⟨hstop, hspan⟩ := hsearch.ends hk hm
  obtain ⟨hsited, hlt⟩ := h.laid.sited_offer hj hplace hstop hspan
  exact ⟨hsited, hoffset ▸ (monotone_offsetAt source hkj).trans_lt hlt⟩

/-- Every pass gains a byte. -/
theorem of_passes (h : Sited source state) (hpasses : passes search source n state = some state') :
    Sited source state' ∧ state.2 + n ≤ state'.2 := by
  induction n generalizing state with
  | zero =>
    obtain rfl := Option.some.inj hpasses
    exact ⟨h, le_rfl⟩
  | succ n ih =>
    obtain ⟨next, hpass, hrest⟩ := Option.bind_eq_some_iff.mp hpasses
    obtain ⟨hnext, hlt⟩ := h.of_pass hsearch hpass
    obtain ⟨hstate', hle⟩ := ih hnext hrest
    exact ⟨hstate', by omega⟩

/-- From the place of a match on the source can be sliced. -/
theorem slice?_eq (h : Sited source state) (hle : state.2 ≤ bytes source)
    (hm : search (cursorAt source state.2) = some m) :
    slice? source m.place.offset (bytes source) = some m.place.rest := by
  obtain ⟨k, hk, hoffset⟩ := h.onward.isBoundary hle
  rw [hoffset, cursorAt_offsetAt hk] at hm
  obtain ⟨j, -, hj, hplace⟩ := hsearch.begins hk hm
  have hboundary : IsBoundary source (offsetAt source j) := ⟨j, hj, rfl⟩
  rw [hplace]
  exact slice?_eq_some_iff.mpr
    ⟨⟨hboundary.le_bytes, hboundary, isBoundary_bytes source⟩, slice_bytes source j⟩

end Sited

/-! ## The loop and the sweep -/

/-- Where a sweep does not go on, the loop is behind the end of the source. -/
theorem Sited.lt_of_not_onward (h : Sited source state) (hkj : k ≤ j) (hj : j ≤ source.length)
    (hlt : offsetAt source j < state.2)
    (hend : ¬ (((placeAt source j).seek state.2).offset = state.2 ∧
      ((placeAt source j).seek state.2).rest.length < (placeAt source k).rest.length)) :
    bytes source < state.2 := by
  by_contra hle
  obtain ⟨i, hi, hoffset⟩ := h.onward.isBoundary (Nat.le_of_not_lt hle)
  have hji : j < i := (offsetAt_lt_iff hi).mp (hoffset ▸ hlt)
  rw [hoffset, seek_offsetAt hji.le hi] at hend
  refine hend ⟨rfl, ?_⟩
  rw [placeAt, placeAt, List.length_drop, List.length_drop]
  omega

/-- **The loop comes to the sweep**, wherever it begins. -/
theorem exists_passes (hsearch : search.Sound source) (h : Laid source spans)
    (hk : k ≤ source.length) : ∃ n offset,
    passes search source n (spans, offsetAt source k) =
      some (sweep search spans (placeAt source k), offset) ∧
    pass search source (sweep search spans (placeAt source k), offset) = none := by
  generalize hc : placeAt source k = c
  fun_induction sweep search spans c generalizing k with
  | case1 spans c hm =>
    subst hc
    exact ⟨0, offsetAt source k, rfl, by rw [pass_offsetAt hk, hm, Option.map_none]⟩
  | case2 spans c m hm after next onward =>
    rename_i ih
    subst hc
    obtain ⟨j, -, hj, hplace⟩ := hsearch.begins hk hm
    obtain ⟨hstop, hspan⟩ := hsearch.ends hk hm
    obtain ⟨hsited, -⟩ := h.sited_offer hj hplace hstop hspan
    obtain ⟨i, -, hi, hseek, -⟩ := exists_seek after.2 hj
    have hnext : placeAt source i = next := by rw [← hseek, ← hplace]
    have hoffset : offsetAt source i = after.2 := by
      rw [← onward.1, ← hnext]
      rfl
    obtain ⟨n, offset, hpasses, hdone⟩ := ih hsited.laid hi hnext
    refine ⟨n + 1, offset, ?_, hdone⟩
    rw [passes, pass_offsetAt hk, hm, Option.map_some, Option.bind_some, ← hpasses, hoffset]
  | case3 spans c m hm after next =>
    rename_i hend
    subst hc
    obtain ⟨j, hkj, hj, hplace⟩ := hsearch.begins hk hm
    obtain ⟨hstop, hspan⟩ := hsearch.ends hk hm
    obtain ⟨hsited, hlt⟩ := h.sited_offer hj hplace hstop hspan
    have hbehind : bytes source < after.2 := by
      refine hsited.lt_of_not_onward hkj hj hlt ?_
      rw [← hplace]
      exact hend
    refine ⟨1, after.2, ?_, if_neg (Nat.not_le.mpr hbehind)⟩
    rw [passes, pass_offsetAt hk, hm, Option.map_some, Option.bind_some]
    rfl

/-- A loop that makes progress over a source, with some spans to begin with. -/
structure Progresses (search : Search) (source : Text) (spans : List Span) : Prop where
  /-- Every pass goes on farther right. -/
  advances : ∀ n state state', passes search source n (spans, 0) = some state →
    pass search source state = some state' → state.2 < state'.2
  /-- Wherever the loop is within the source, it is on a boundary. -/
  boundary : ∀ n state, passes search source n (spans, 0) = some state →
    state.2 ≤ bytes source → IsBoundary source state.2
  /-- Wherever a match begins, the source can be sliced. -/
  sliced : ∀ n state m, passes search source n (spans, 0) = some state →
    state.2 ≤ bytes source → search (cursorAt source state.2) = some m →
    slice? source m.place.offset (bytes source) = some m.place.rest
  /-- Before any pass that is begun there were no more passes than the source has bytes. -/
  bounded : ∀ n state, passes search source n (spans, 0) = some state →
    state.2 ≤ bytes source → n ≤ bytes source
  /-- The loop ends, with the spans of the sweep. -/
  ends : ∃ n ≤ bytes source + 1, ∃ offset,
    passes search source n (spans, 0) = some (sweep search spans (.first source), offset) ∧
    pass search source (sweep search spans (.first source), offset) = none

theorem Laid.progresses (hsearch : search.Sound source) (h : Laid source spans) :
    Progresses search source spans := by
  have hstart : Sited source (spans, 0) := ⟨h, .inl (isBoundary_zero source)⟩
  have hsited {n : Nat} {state : State} (hpasses : passes search source n (spans, 0) = some state) :
      Sited source state ∧ n ≤ state.2 := by
    have hreached := hstart.of_passes hsearch hpasses
    rwa [Nat.zero_add] at hreached
  refine ⟨fun n state state' hpasses hpass => ?_, fun n state hpasses hle => ?_,
    fun n state m hpasses hle hm => ?_, fun n state hpasses hle => ?_, ?_⟩
  · exact ((hsited hpasses).1.of_pass hsearch hpass).2
  · exact (hsited hpasses).1.onward.isBoundary hle
  · exact (hsited hpasses).1.slice?_eq hsearch hle hm
  · exact (hsited hpasses).2.trans hle
  · obtain ⟨n, offset, hpasses, hdone⟩ := exists_passes hsearch h (Nat.zero_le source.length)
    obtain ⟨hend, hle⟩ := hsited hpasses
    exact ⟨n, hle.trans hend.onward.le, offset, hpasses, hdone⟩

/-! ## Tiers -/

/-- The spans after searches have gone through a source, one after the other. -/
def sweepAll (searches : List Search) (source : Text) : List Span :=
  searches.foldl (fun spans search => sweep search spans (.first source)) []

theorem tokenize_eq_sweepAll (lang : Language) (source : Text) :
    tokenize lang source = sweepAll ((tiers lang).map leftmost) source := by
  rw [tokenize, sweepAll, List.foldl_map]

theorem laid_sweepAll {searches : List Search} (h : ∀ search ∈ searches, search.Sound source) :
    Laid source (sweepAll searches source) := by
  refine List.foldlRecOn searches _ .nil fun spans hspans search hsearch => ?_
  obtain ⟨n, offset, hpasses, -⟩ := exists_passes (h search hsearch) hspans (Nat.zero_le source.length)
  have hstart : Sited source (spans, 0) := ⟨hspans, .inl (isBoundary_zero source)⟩
  exact (hstart.of_passes (h search hsearch) hpasses).1.laid

/-- **Every tier makes progress**, whatever its search is, if that and the searches of the tiers before
it are sound; and those of a language are. -/
theorem tiers_progress (source : Text) :
    (∀ (earlier : List Search) (search : Search), (∀ s ∈ earlier, s.Sound source) →
      search.Sound source → Progresses search source (sweepAll earlier source)) ∧
    ∀ lang : Language,
      tokenize lang source = sweepAll ((tiers lang).map leftmost) source ∧
      ∀ earlier r later, tiers lang = earlier ++ r :: later →
        Progresses (leftmost r) source (sweepAll (earlier.map leftmost) source) := by
  have hall (earlier : List Search) (search : Search) (hearlier : ∀ s ∈ earlier, s.Sound source)
      (hsearch : search.Sound source) : Progresses search source (sweepAll earlier source) :=
    (laid_sweepAll hearlier).progresses hsearch
  refine ⟨hall, fun lang => ⟨tokenize_eq_sweepAll lang source, fun earlier r later htiers => ?_⟩⟩
  have hsound {r : Recogniser} (hr : r ∈ tiers lang) : (leftmost r).Sound source :=
    (reads_of_mem_tiers hr).sound
  refine hall _ _ (List.forall_mem_map.mpr fun r' hr' => hsound ?_) (hsound ?_)
  · rw [htiers]
    exact List.mem_append_left _ hr'
  · rw [htiers]
    exact List.mem_append_cons_self

/-- A search that finds nothing, and that at every place up to the end, behind one that claims. -/
theorem tiers_progress_empty :
    let source : Text := "\"é\"x"
    let literals : Search := leftmost (commentOrString .python)
    let empty : Search := fun c => some ⟨c, ⟨c.offset, c.offset, .number⟩, c.offset⟩
    (∀ s ∈ [literals], s.Sound source) ∧ empty.Sound source ∧
      Progresses empty source (sweepAll [literals] source) := by
  intro source literals empty
  have hliterals : ∀ s ∈ [literals], s.Sound source :=
    List.forall_mem_singleton.mpr (reads_commentOrString .python).sound
  have hempty : empty.Sound source := by
    refine ⟨fun {k m} hk hm => ?_, fun {k m} hk hm => ?_⟩
    · obtain rfl := Option.some.inj hm
      exact ⟨k, le_rfl, hk, rfl⟩
    · obtain rfl := Option.some.inj hm
      exact ⟨⟨k, hk, rfl⟩, ⟨k, hk, rfl⟩⟩
  exact ⟨hliterals, hempty, (tiers_progress source).1 [literals] empty hliterals hempty⟩

end Workbench.Highlight
