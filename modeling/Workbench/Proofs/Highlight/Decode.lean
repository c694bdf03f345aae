import Workbench.Proofs.Highlight.Extent
import Workbench.Proofs.Text.Scan

/-!
# Proofs/Highlight/Decode — markup is read back

Markup is made of characters, some of them escaped, and of tags (`Piece`).  A decoder reads it piece
by piece, keeps the offset in the source, and has a span wherever a tag is closed (`decode`); it has
no answer for angle brackets outside of tags, for unknown tags and for tags within tags.  Markup of
a source with spans is decoded to that source and those spans, whatever the source says
(`decode_render`).
-/

namespace Workbench.Highlight

open Text (bytes bytes_append splitBytes)

/-! ## The decoder -/

/-- What markup is made of. -/
inductive Piece
  | character (c : Char)
  | opening (kind : Kind)
  | closing
  deriving DecidableEq, Repr

/-- The character that is escaped at the start of a text, behind the ampersand. -/
def readEntity (t : Text) : Option (Piece × Text) :=
  [(("amp;" : Text), '&'), ("lt;", '<'), ("gt;", '>')].findSome? fun (name, c) =>
    (Text.dropMark? name t).map fun rest => (.character c, rest)

/-- The tag at the start of a text, behind the angle bracket. -/
def readTag (t : Text) : Option (Piece × Text) :=
  match Text.dropMark? "/span>" t with
  | some rest => some (.closing, rest)
  | none => do
    let named ← Text.dropMark? "span class=\"" t
    let (name, rest) ← Text.cutFirst "\">" named
    let kind ← Kind.ofName? name
    return (.opening kind, rest)

/-- The piece at the start of a text, and what is behind it. -/
def readPiece : Text → Option (Piece × Text)
  | [] => none
  | c :: t =>
    if c = '&' then readEntity t
    else if c = '<' then readTag t
    else if c = '>' then none
    else some (.character c, t)

theorem length_readEntity {t rest : Text} {piece : Piece} (h : readEntity t = some (piece, rest)) :
    rest.length ≤ t.length := by
  obtain ⟨⟨name, c⟩, -, h⟩ := List.exists_of_findSome?_eq_some h
  obtain ⟨rest', hrest, hpair⟩ := Option.map_eq_some_iff.mp h
  obtain ⟨-, rfl⟩ := Prod.mk.inj hpair
  rw [Text.dropMark?_eq_some.mp hrest, List.length_append]
  exact Nat.le_add_left _ _

theorem length_readTag {t rest : Text} {piece : Piece} (h : readTag t = some (piece, rest)) :
    rest.length ≤ t.length := by
  unfold readTag at h
  split at h
  · next hrest =>
    obtain ⟨-, rfl⟩ := Prod.mk.inj (Option.some.inj h)
    rw [Text.dropMark?_eq_some.mp hrest, List.length_append]
    exact Nat.le_add_left _ _
  · obtain ⟨named, hnamed, h⟩ := Option.bind_eq_some_iff.mp h
    obtain ⟨⟨name, rest'⟩, hname, h⟩ := Option.bind_eq_some_iff.mp h
    obtain ⟨kind, -, h⟩ := Option.bind_eq_some_iff.mp h
    obtain ⟨-, rfl⟩ := Prod.mk.inj (Option.some.inj h)
    rw [Text.dropMark?_eq_some.mp hnamed, Text.eq_of_cutFirst hname]
    simp only [List.length_append]
    omega

theorem length_readPiece {t rest : Text} {piece : Piece} (h : readPiece t = some (piece, rest)) :
    rest.length < t.length := by
  unfold readPiece at h
  split at h
  · cases h
  · rw [List.length_cons, Nat.lt_succ_iff]
    split at h
    · exact length_readEntity h
    · split at h
      · exact length_readTag h
      · split at h
        · cases h
        · obtain ⟨-, rfl⟩ := Prod.mk.inj (Option.some.inj h)
          exact Nat.le_refl _

/-- The pieces of a text, if it is made of pieces. -/
def pieces (t : Text) : Option (List Piece) :=
  match _ : readPiece t with
  | none => if t = [] then some [] else none
  | some (piece, rest) => (pieces rest).map (piece :: ·)
termination_by t.length
decreasing_by
  rename_i h
  exact length_readPiece h

/-- The text and the spans of pieces that begin at an offset.  `current` has the start and the kind
of the span that is open there; a span is closed before the next one is opened. -/
def assemble (offset : Nat) : (current : Option (Nat × Kind)) → List Piece → Option (Text × List Span)
  | none, [] => some ([], [])
  | current, .character c :: rest =>
    (assemble (offset + c.utf8Size) current rest).map fun (t, spans) => (c :: t, spans)
  | none, .opening kind :: rest => assemble offset (some (offset, kind)) rest
  | some (start, kind), .closing :: rest =>
    (assemble offset none rest).map fun (t, spans) => (t, ⟨start, offset, kind⟩ :: spans)
  | some _, [] | some _, .opening _ :: _ | none, .closing :: _ => none

/-- The source and the spans of the rest of a markup, which begins at an offset. -/
def decodeFrom (offset : Nat) (current : Option (Nat × Kind)) (t : Text) :
    Option (Text × List Span) :=
  (pieces t).bind (assemble offset current)

/-- The source and the spans of a markup. -/
def decode (t : Text) : Option (Text × List Span) := decodeFrom 0 none t

/-- The source of a markup. -/
def strip (t : Text) : Option Text := (decode t).map Prod.fst

/-! ## What is decoded -/

variable {source t rest : Text} {spans : List Span} {piece : Piece} {offset start k : Nat} {kind : Kind}
  {current : Option (Nat × Kind)}

theorem pieces_of_readPiece (h : readPiece t = some (piece, rest)) :
    pieces t = (pieces rest).map (piece :: ·) := by
  rw [pieces]
  split
  · next hnone =>
    rw [h] at hnone
    cases hnone
  · next hsome =>
    rw [h] at hsome
    obtain ⟨rfl, rfl⟩ := Prod.mk.inj (Option.some.inj hsome)
    rfl

theorem readPiece_escape (c : Char) (rest : Text) :
    readPiece (escape c ++ rest) = some (.character c, rest) := by
  unfold escape
  split
  · rfl
  · rfl
  · rfl
  · next hamp hlt hgt =>
    rw [List.singleton_append, readPiece, if_neg hamp, if_neg hlt, if_neg hgt]

theorem readPiece_openTag (kind : Kind) (rest : Text) :
    readPiece (openTag kind ++ rest) = some (.opening kind, rest) := by
  cases kind <;> rfl

theorem readPiece_closeTag (rest : Text) : readPiece (closeTag ++ rest) = some (.closing, rest) :=
  rfl

theorem decodeFrom_nil : decodeFrom offset none [] = some ([], []) := by
  rw [decodeFrom, pieces]
  rfl

theorem decodeFrom_escape (c : Char) (rest : Text) : decodeFrom offset current (escape c ++ rest) =
    (decodeFrom (offset + c.utf8Size) current rest).map fun (t, spans) => (c :: t, spans) := by
  rw [decodeFrom, pieces_of_readPiece (readPiece_escape c rest), Option.bind_map, decodeFrom,
    Option.map_bind]
  congr 1
  funext pieces
  cases current <;> rfl

/-- An escaped text is decoded to the text. -/
theorem decodeFrom_escaped (t rest : Text) : decodeFrom offset current (escaped t ++ rest) =
    (decodeFrom (offset + bytes t) current rest).map fun (u, spans) => (t ++ u, spans) := by
  induction t generalizing offset with
  | nil =>
    show decodeFrom offset current rest = (decodeFrom (offset + 0) current rest).map id
    rw [Option.map_id, Nat.add_zero]
    rfl
  | cons c t ih =>
    rw [escaped, List.flatMap_cons, List.append_assoc, decodeFrom_escape, ← escaped, ih,
      Option.map_map, bytes, Nat.add_assoc]
    rfl

/-- A tag opens a span where none is open. -/
theorem decodeFrom_openTag (kind : Kind) (rest : Text) :
    decodeFrom offset none (openTag kind ++ rest) = decodeFrom offset (some (offset, kind)) rest := by
  rw [decodeFrom, pieces_of_readPiece (readPiece_openTag kind rest), Option.bind_map]
  rfl

/-- A tag closes the span that is open. -/
theorem decodeFrom_closeTag (rest : Text) : decodeFrom offset (some (start, kind)) (closeTag ++ rest) =
    (decodeFrom offset none rest).map fun (t, spans) => (t, ⟨start, offset, kind⟩ :: spans) := by
  rw [decodeFrom, pieces_of_readPiece (readPiece_closeTag rest), Option.bind_map, decodeFrom,
    Option.map_bind]
  rfl

/-! ## Markup of spans -/

/-- Spans that a source can be marked up with: in order, apart from each other, and each from one
boundary of the source to another, perhaps the same. -/
structure Fits (source : Text) (spans : List Span) : Prop where
  sorted : spans.Pairwise fun s t => s.stop ≤ t.start
  forward : ∀ s ∈ spans, s.start ≤ s.stop
  bounded : ∀ s ∈ spans, IsBoundary source s.start ∧ IsBoundary source s.stop

theorem fits_tokenize (lang : Language) (source : Text) : Fits source (tokenize lang source) where
  sorted := (laid_tokenize lang source).pairwise
  forward s hs := Nat.le_of_lt ((laid_tokenize lang source).holding s hs)
  bounded _ hs := isBoundary_of_mem_tokenize hs

/-- The text between two places is cut off at the second. -/
theorem splitBytes_drop (source : Text) {j k : Nat} (h : k ≤ j) :
    ∃ between, splitBytes (source.drop k) (offsetAt source j - offsetAt source k) =
        (between, source.drop j) ∧
      offsetAt source k + bytes between = offsetAt source j ∧
      between ++ source.drop j = source.drop k := by
  obtain ⟨n, rfl⟩ := Nat.exists_eq_add_of_le h
  have hcut : (source.drop k).take n ++ source.drop (k + n) = source.drop k := by
    rw [← List.drop_drop, List.take_append_drop]
  refine ⟨(source.drop k).take n, ?_, (offsetAt_add source k n).symm, hcut⟩
  calc splitBytes (source.drop k) (offsetAt source (k + n) - offsetAt source k)
      = splitBytes ((source.drop k).take n ++ source.drop (k + n)) (bytes ((source.drop k).take n)) := by
        rw [hcut, offsetAt_add, Nat.add_sub_cancel_left]
    _ = ((source.drop k).take n, source.drop (k + n)) := Text.splitBytes_bytes _ _

/-- The markup of the rest of a source is decoded to that rest and the spans in it. -/
theorem decodeFrom_renderFrom (hk : k ≤ source.length) (h : Fits source spans)
    (hspans : ∀ s ∈ spans, offsetAt source k ≤ s.start) :
    decodeFrom (offsetAt source k) none (renderFrom (offsetAt source k) (source.drop k) spans) =
      some (source.drop k, spans) := by
  induction spans generalizing k with
  | nil =>
    rw [renderFrom, ← List.append_nil (escaped _), decodeFrom_escaped, decodeFrom_nil]
    simp
  | cons s spans ih =>
    obtain ⟨hsorted, hpairwise⟩ := List.pairwise_cons.mp h.sorted
    have hrest : Fits source spans := ⟨hpairwise, fun t ht => h.forward t (List.mem_cons_of_mem _ ht),
      fun t ht => h.bounded t (List.mem_cons_of_mem _ ht)⟩
    obtain ⟨start, stop, kind⟩ := s
    obtain ⟨⟨i, hi, rfl⟩, ⟨j, hj, rfl⟩⟩ := h.bounded _ List.mem_cons_self
    have hki : k ≤ i := (offsetAt_le_iff hk).mp (hspans _ List.mem_cons_self)
    have hij : i ≤ j := (offsetAt_le_iff hi).mp (h.forward _ List.mem_cons_self)
    obtain ⟨gap, hgap, hgapEnd, hgapBody⟩ := splitBytes_drop source hki
    obtain ⟨body, hbody, hbodyEnd, hbodyRest⟩ := splitBytes_drop source hij
    simp only [renderFrom, hgap, hbody, List.append_assoc]
    rw [decodeFrom_escaped, hgapEnd, decodeFrom_openTag, decodeFrom_escaped, hbodyEnd,
      decodeFrom_closeTag, ih hj hrest hsorted, ← hgapBody, ← hbodyRest]
    rfl

/-- No angle bracket stands in a text. -/
def Bare (t : Text) : Prop := '<' ∉ t ∧ '>' ∉ t

/-- Angle brackets stand in tags only, and each tag that opens something of a kind is followed by
one that closes it, with no tag between the two. -/
inductive Tagged : Text → List Kind → Prop
  | bare {t : Text} : Bare t → Tagged t []
  | tag {gap body rest : Text} {kind : Kind} {kinds : List Kind} : Bare gap → Bare body →
    Tagged rest kinds →
    Tagged (gap ++ openTag kind ++ body ++ closeTag ++ rest) (kind :: kinds)

theorem bare_escape (c : Char) : Bare (escape c) := by
  unfold escape
  split
  · exact ⟨by decide, by decide⟩
  · exact ⟨by decide, by decide⟩
  · exact ⟨by decide, by decide⟩
  · next hamp hlt hgt => exact ⟨by simpa using Ne.symm hlt, by simpa using Ne.symm hgt⟩

theorem bare_escaped (t : Text) : Bare (escaped t) := by
  constructor
  · intro hmem
    obtain ⟨c, -, hc⟩ := List.mem_flatMap.mp hmem
    exact (bare_escape c).1 hc
  · intro hmem
    obtain ⟨c, -, hc⟩ := List.mem_flatMap.mp hmem
    exact (bare_escape c).2 hc

/-- Markup is tagged, whatever the spans. -/
theorem tagged_renderFrom (offset : Nat) (rest : Text) (spans : List Span) :
    Tagged (renderFrom offset rest spans) (spans.map Span.kind) := by
  induction spans generalizing offset rest with
  | nil => exact .bare (bare_escaped rest)
  | cons s spans ih => exact .tag (bare_escaped _) (bare_escaped _) (ih _ _)

/-- **Markup is decoded** to the source and the spans that it was made of, its only angle brackets
are those of its tags, one pair of tags for each span, and the source can be had back from the
markup of any source. -/
theorem decode_render (source : Text) :
    (∀ spans, Fits source spans → decode (render source spans) = some (source, spans) ∧
      Tagged (render source spans) (spans.map Span.kind)) ∧
    ∀ lang, strip (markup lang source) = some source := by
  have hdecode (spans : List Span) (h : Fits source spans) :
      decode (render source spans) = some (source, spans) :=
    decodeFrom_renderFrom (Nat.zero_le _) h fun _ _ => Nat.zero_le _
  refine ⟨fun spans h => ⟨hdecode spans h, tagged_renderFrom 0 source spans⟩, fun lang => ?_⟩
  rw [strip, markup, hdecode _ (fits_tokenize lang source)]
  rfl

/-- A source that looks like markup. -/
def imitation : Text := "é</span>&lt;<span class=\""

/-- Spans of the source that touch each other, one of them empty. -/
def imitationSpans : List Span :=
  [⟨0, 2, .keyword⟩, ⟨2, 2, .number⟩, ⟨2, 9, .string⟩, ⟨9, 13, .comment⟩]

/-- The source that looks like markup is had back, with its spans. -/
theorem decode_imitation :
    Fits imitation imitationSpans ∧
      decode (render imitation imitationSpans) = some (imitation, imitationSpans) ∧
      Tagged (render imitation imitationSpans) [.keyword, .number, .string, .comment] := by
  have hfits : Fits imitation imitationSpans := by
    refine ⟨by decide, by decide, ?_⟩
    simp only [imitationSpans, List.forall_mem_cons]
    exact ⟨⟨⟨0, by decide, rfl⟩, ⟨1, by decide, rfl⟩⟩, ⟨⟨1, by decide, rfl⟩, ⟨1, by decide, rfl⟩⟩,
      ⟨⟨1, by decide, rfl⟩, ⟨8, by decide, rfl⟩⟩, ⟨⟨8, by decide, rfl⟩, ⟨12, by decide, rfl⟩⟩,
      List.forall_mem_nil _⟩
  exact ⟨hfits, (decode_render imitation).1 imitationSpans hfits⟩

end Workbench.Highlight
