import TrickleNet.Node.Operation
/-!
# The run loop

A node that runs starts its ticker and then takes one turn after the other, for ever.  In each turn
it waits for a command, but no longer than until its first alarm is due, and then carries out the
oldest command or, if none has come, lets alarms ring.  A command comes first even if alarms have
become due meanwhile.

`Node.turn` is what a turn does after its wait.  `Node.run` takes turns on a clock that is moved to
the instant waited for, up to a number of such waits.  No turn queues a command, so the commands
that wait at the start all come before the first of them.
-/

namespace TrickleNet.Node

variable {ρ : Type} [RandomSource ρ]

/-- Queues a command for the run loop, unless too many are waiting. -/
def enqueue (n : Node ρ) (c : Command) : Node ρ := { n with commands := n.commands.offer c }

/-- Carries out a command taken from the queue; a refusal goes into the trace. -/
def serve (p : Platform) (n : Node ρ) (c : Command) : Checked (Node ρ) := do
  let o ← handleCommand p n c n.clock
  return match o.refusal with
    | none => o.state
    | some r => o.state.emit (.commandFailed r)

/-- The instant at which a turn waits no longer: the first alarm is due.  Were none armed, it would
be one period of the ticker away. -/
def wakeTime (p : Platform) (n : Node ρ) : Instant := n.nextWake?.getD (n.clock + p.upkeepInterval)

/-- What a turn does after its wait: it carries out the oldest command or, if none waits, lets
alarms ring. -/
def turn (p : Platform) (n : Node ρ) : Checked (Node ρ) :=
  match n.commands.oldest? with
  | some c => serve p { n with commands := n.commands.rest } c
  | none => handleTimer p n n.clock

/-- The wait of a turn: it is over at once if a command waits, and otherwise the clock is moved to
the end of the wait.  The clock never goes back. -/
def wait (p : Platform) (n : Node ρ) : Node ρ :=
  if n.commands.oldest?.isSome then n else { n with clock := n.clock.later (n.wakeTime p) }

/-- Takes a number of turns. -/
def turns (p : Platform) : Nat → Node ρ → Checked (Node ρ)
  | 0, n => .ok n
  | k + 1, n => do turns p k (← turn p (n.wait p))

/-- Runs from a cold start: carries out the commands that wait, and then sleeps a number of
times. -/
def run (p : Platform) (n : Node ρ) (sleeps : Nat) : Checked (Node ρ) :=
  turns p (n.commands.toList.length + sleeps) (restartUpkeep p n n.clock)

end TrickleNet.Node
