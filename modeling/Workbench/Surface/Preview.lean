import Workbench.Surface.Host

/-!
# Surface/Preview — the one surface that a session shows

A preview knows the surface it mounted last.  It forgets that surface before the host is asked to
tear it down, so a refused teardown leaves the surface live and nobody's.
-/

namespace Workbench

/-- A host with the surface that is shown on it at present. -/
structure Preview where
  host : Host := {}
  current : Option SurfaceId := none

namespace Preview

/-- Takes the current surface away, if there is one. -/
def discard (p : Preview) : Except Error Unit × Preview :=
  match p.current with
  | none => (.ok (), p)
  | some old =>
    let (result, host) := p.host.teardown old
    (result, ⟨host, none⟩)

/-- Shows a document in the place of what is shown.  Nothing is mounted if the old surface cannot
be taken away. -/
def render (p : Preview) (document : Text) : Except Error SurfaceId × Preview :=
  match p.discard with
  | (.error e, p) => (.error e, p)
  | (.ok (), p) =>
    match p.host.mount document with
    | (.error e, host) => (.error e, ⟨host, p.current⟩)
    | (.ok id, host) => (.ok id, ⟨host, some id⟩)

@[simp] theorem discard_current (p : Preview) : p.discard.2.current = none := by
  unfold discard
  split
  · next h => exact h
  · rfl

end Preview
end Workbench
