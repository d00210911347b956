import TrickleNet.Node.Basic
/-!
# Maintenance

The maintenance ticker ages routes and recomputes ranks, and while the node belongs to no topology
instance it solicits all neighbours from time to time.  It ticks on a grid: each tick is measured
from the deadline of the one before.
-/

namespace TrickleNet.Node

variable {ρ : Type}

/-- Restarts the ticker.  The first solicitation goes out `Platform.solicitDelay` ticks later,
unless an instance was joined by then. -/
def restartUpkeep (p : Platform) (n : Node ρ) (now : Instant) : Node ρ :=
  { n with sinceSolicit := p.solicitInterval.toNat - p.solicitDelay.toNat }.arm .upkeep now
    p.upkeepInterval

/-- Purges stale routes and recomputes the ranks of every joined instance. -/
def ageRoutes (n : Node ρ) : Checked (Node ρ) := do
  let upkeep ← n.upkeep.purge
  return { n with upkeep := n.dodags.keys.foldl .recompute upkeep }

/-- Solicits all neighbours if the node belongs to no instance and has not done so for long. -/
def solicitDetached (p : Platform) (n : Node ρ) : Checked (Node ρ) :=
  if n.dodags.size = 0 ∧ p.solicitInterval.toNat ≤ n.sinceSolicit then do
    let n ← { n with sinceSolicit := 0 }.count .disBroadcast
    (n.emit .disBroadcast).send (.dis none)
  else .ok n

/-- The ticker rings.  Ticks are counted also while the node belongs to an instance, so a node that
leaves its last one solicits at once. -/
def upkeepRings (p : Platform) (n : Node ρ) : Checked (Node ρ) := do
  let n ← n.ageRoutes
  let n ← solicitDetached p { n with sinceSolicit := min (n.sinceSolicit + 1) 65535 }
  return { n with alarms := n.alarms.rearm .upkeep }

end TrickleNet.Node
