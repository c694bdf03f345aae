import Workbench.Error

/-!
# Surface/Host — where documents are shown

A host mounts a document on a new surface and tears surfaces down again.  It may refuse a call; a
refused call changes nothing but the count of calls.  Which calls are refused is a plan that the
host is given, so that a law about hosts quantifies over plans.
-/

namespace Workbench

/-- The number of a surface; a host numbers the surfaces that it mounts from 1 on. -/
abbrev SurfaceId := Nat

/-- The calls that a host refuses, mounts and teardowns each counted from 1. -/
structure Refusals where
  mount : Nat → Bool
  teardown : Nat → Bool

/-- Nothing is refused. -/
def Refusals.none : Refusals := ⟨fun _ => false, fun _ => false⟩

/-- A host of surfaces, with what it shows and what it has torn down. -/
structure Host where
  refusals : Refusals := .none
  mountCalls : Nat := 0
  teardownCalls : Nat := 0
  /-- The number of surfaces mounted so far. -/
  mounted : Nat := 0
  /-- The surfaces that are shown, with their documents; the newest is last. -/
  live : List (SurfaceId × Text) := []
  /-- The surfaces that were torn down, in that order. -/
  tornDown : List SurfaceId := []

namespace Host

/-- Shows a document on a new surface. -/
def mount (h : Host) (document : Text) : Except Error SurfaceId × Host :=
  let call := h.mountCalls + 1
  let h := { h with mountCalls := call }
  if h.refusals.mount call then
    (.error (.surface ("mount " ++ Text.ofNat call ++ " refused")), h)
  else
    let id := h.mounted + 1
    (.ok id, { h with mounted := id, live := h.live ++ [(id, document)] })

/-- Takes a surface away. -/
def teardown (h : Host) (id : SurfaceId) : Except Error Unit × Host :=
  let call := h.teardownCalls + 1
  let h := { h with teardownCalls := call }
  if h.refusals.teardown call then
    (.error (.surface ("teardown " ++ Text.ofNat call ++ " refused")), h)
  else if (h.live.lookup id).isNone then
    (.error (.surface ("surface " ++ Text.ofNat id ++ " is not mounted")), h)
  else
    (.ok (), { h with
      live := h.live.filter fun (other, _) => other ≠ id
      tornDown := h.tornDown ++ [id] })

end Host
end Workbench
