import Workbench.Highlight.Markup
import Workbench.Proofs.Highlight.Classify

/-!
# Proofs/Highlight/Extent — how far spans and markup reach

No span goes beyond the end of its source (`bounds_of_mem_tokenize`), each begins and ends between
two characters (`isBoundary_of_mem_tokenize`), and the markup has every character of the source in
it, so it is at least as long (`bytes_le_markup`).
-/

namespace Workbench.Highlight

open Text (bytes bytes_append splitBytes splitBytes_append)

variable {source : Text} {s : Span}

/-- A span that is laid on a source ends within it. -/
theorem Laid.stop_le {spans : List Span} (h : Laid source spans) (hs : s ∈ spans) :
    s.stop ≤ bytes source := by
  obtain ⟨k, -, hstop⟩ := h.placed s hs
  calc s.stop = offsetAt source k := hstop
    _ ≤ offsetAt source k + bytes (source.drop k) := Nat.le_add_right _ _
    _ = bytes source := by rw [offsetAt, ← bytes_append, List.take_append_drop]

/-- Every highlighted span has something in it and ends within the source. -/
theorem bounds_of_mem_tokenize {lang : Language} (hs : s ∈ tokenize lang source) :
    s.start < s.stop ∧ s.stop ≤ bytes source :=
  ⟨(laid_tokenize lang source).holding s hs, (laid_tokenize lang source).stop_le hs⟩

/-- An offset is that of a place: a character begins there, or the source ends. -/
def IsBoundary (source : Text) (offset : Nat) : Prop := ∃ k ≤ source.length, offset = offsetAt source k

/-- Whatever a tier looks for, it finds only what the source has there. -/
theorem reads_of_mem_tiers {lang : Language} {r : Recogniser} (hr : r ∈ tiers lang) :
    r.Reads source := by
  simp only [tiers, List.mem_cons, List.not_mem_nil, or_false] at hr
  rcases hr with rfl | rfl | rfl | rfl | rfl
  · exact reads_commentOrString lang
  · exact reads_number
  · exact (finds_wordIn _ _).reads
  · exact (finds_wordIn _ _).reads
  · exact finds_call.reads

/-- A span begins and ends at a place of the source. -/
theorem isBoundary_of_mem_tokenize {lang : Language} (hs : s ∈ tokenize lang source) :
    IsBoundary source s.start ∧ IsBoundary source s.stop := by
  refine List.foldlRecOn (tiers lang) _
    (motive := fun spans => ∀ s ∈ spans, IsBoundary source s.start ∧ IsBoundary source s.stop)
    nofun ?_ s hs
  intro spans hspans r hr s hs
  have hreads : r.Reads source := reads_of_mem_tiers hr
  rcases hreads.exists_of_mem_sweep (Nat.zero_le _) hs with hs | ⟨j, l, hj, hl, rfl⟩
  · exact hspans s hs
  · exact ⟨⟨j, hj, rfl⟩, ⟨_, hreads.length_le hl hj, rfl⟩⟩

theorem utf8Size_le_escape (c : Char) : c.utf8Size ≤ bytes (escape c) := by
  unfold escape
  split
  · decide
  · decide
  · decide
  · exact Nat.le_refl _

/-- Escaping makes a text no shorter. -/
theorem bytes_le_escaped (t : Text) : bytes t ≤ bytes (escaped t) := by
  induction t with
  | nil => exact Nat.le_refl _
  | cons c t ih =>
    rw [escaped, List.flatMap_cons, bytes_append, bytes]
    exact Nat.add_le_add (utf8Size_le_escape c) ih

theorem bytes_le_renderFrom (offset : Nat) (rest : Text) (spans : List Span) :
    bytes rest ≤ bytes (renderFrom offset rest spans) := by
  induction spans generalizing offset rest with
  | nil => exact bytes_le_escaped rest
  | cons s spans ih =>
    rcases hgap : splitBytes rest (s.start - offset) with ⟨gap, behind⟩
    rcases hbody : splitBytes behind (s.stop - s.start) with ⟨body, later⟩
    have hrest : gap ++ behind = rest := by
      rw [← splitBytes_append rest (s.start - offset), hgap]
    have hbehind : body ++ later = behind := by
      rw [← splitBytes_append behind (s.stop - s.start), hbody]
    have := bytes_le_escaped gap
    have := bytes_le_escaped body
    have := ih s.stop later
    have hbytes : bytes rest = bytes gap + (bytes body + bytes later) := by
      rw [← hrest, ← hbehind, bytes_append, bytes_append]
    simp only [renderFrom, hgap, hbody, bytes_append]
    omega

/-- **The markup is at least as long** as the source. -/
theorem bytes_le_markup (lang : Language) (source : Text) : bytes source ≤ bytes (markup lang source) :=
  bytes_le_renderFrom 0 source _

end Workbench.Highlight
