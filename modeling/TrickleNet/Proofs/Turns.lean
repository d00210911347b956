import Mathlib
import TrickleNet.Node.Loop
import TrickleNet.Proofs.Ahead
import TrickleNet.Proofs.Overflow
import TrickleNet.Proofs.Service
/-!
# The turns of the run loop

A node that runs takes turns for ever.  While it waits for a turn the world outside goes on:
commands arrive, messages are collected, the trace is read, and the clock moves (`Node.Awaited`).
All that is known of the end of a wait without a command is that the first alarm is due by then, by
how much is open.  A `Node.Lap` is a turn with its wait, and `Node.Laps p n ls k` says that the laps
`ls` lead from `n` to `k`.  `Node.turns` takes laps in which no command arrives (`laps_of_turns`).

Whatever a turn does, the ticker runs afterwards (`Running.turn`), so there is always an alarm to
wait for.  A turn without a command lets an alarm ring and leaves none that is due
(`Lap.Valid.rings`).  A turn takes one command from the queue or finds it empty
(`Lap.Valid.commands`), so commands are carried out in the order in which they came, each of them
once.  This is put together in `run_loop_makes_progress`.
-/

namespace TrickleNet.Node

variable {ρ : Type} {p : Platform} {n m k w : Node ρ} {now : Instant} {c : Command}
  {arrived : List Command}

/-- The node has waited for its turn until a command waits or its first alarm is due. -/
structure Awaited (p : Platform) (n : Node ρ) (arrived : List Command) (w : Node ρ) : Prop where
  same : n.SameCore w
  /-- Commands queue up behind those that wait. -/
  commands : w.commands.toList = n.commands.toList ++ arrived
  due : w.commands.toList = [] → n.wakeTime p ≤ w.clock

/-- A turn of the run loop and the wait before it. -/
structure Lap (ρ : Type) where
  /-- The node before the wait. -/
  before : Node ρ
  /-- The commands that arrive during the wait. -/
  arrived : List Command
  /-- The node after the wait. -/
  woken : Node ρ
  /-- The node after the turn. -/
  after : Node ρ

namespace Lap

/-- The command that the turn carries out. -/
def command? (l : Lap ρ) : Option Command := l.woken.commands.oldest?

/-- The node when the turn has taken a command from the queue. -/
def taken (l : Lap ρ) : Node ρ := { l.woken with commands := l.woken.commands.rest }

/-- The wait and the turn lead from `Lap.before` to `Lap.after`. -/
structure Valid [RandomSource ρ] (p : Platform) (l : Lap ρ) : Prop where
  awaited : l.before.Awaited p l.arrived l.woken
  turn : l.woken.turn p = .ok l.after

end Lap

variable [RandomSource ρ]

/-- The run loop takes turns one after the other. -/
inductive Laps (p : Platform) : Node ρ → List (Lap ρ) → Node ρ → Prop
  | nil {n : Node ρ} : Laps p n [] n
  | cons {l : Lap ρ} {ls : List (Lap ρ)} {k : Node ρ} :
      l.Valid p → Laps p l.after ls k → Laps p l.before (l :: ls) k

variable {l : Lap ρ} {ls : List (Lap ρ)}

/-! ## Laps in which no command arrives -/

omit [RandomSource ρ] in
theorem awaited_wait (p : Platform) (n : Node ρ) : n.Awaited p [] (n.wait p) := by
  unfold wait
  split
  · rename_i hcommand
    obtain ⟨c, hc⟩ := Option.isSome_iff_exists.1 hcommand
    refine ⟨.refl n, (List.append_nil _).symm, fun hempty => ?_⟩
    rw [Mailbox.oldest?_eq_none_iff.2 hempty] at hc
    cases hc
  · refine ⟨⟨rfl, rfl, rfl, rfl, rfl, rfl, rfl, rfl⟩, (List.append_nil _).symm, fun _ => ?_⟩
    show n.wakeTime p ≤ n.clock.later (n.wakeTime p)
    rw [Instant.le_iff, Instant.ticks_later]
    exact Nat.le_max_right _ _

theorem laps_of_turns {j : Nat} (h : turns p j n = .ok m) :
    ∃ ls, ls.length = j ∧ (∀ l ∈ ls, l.arrived = []) ∧ Laps p n ls m := by
  induction j generalizing n with
  | zero =>
    obtain rfl := Except.ok.inj h
    exact ⟨[], rfl, by simp, .nil⟩
  | succ j ih =>
    obtain ⟨k, hk, hrest⟩ := Checked.bind_eq_ok_iff.1 h
    obtain ⟨ls, hlength, hquiet, hlaps⟩ := ih hrest
    let l : Lap ρ := ⟨n, [], n.wait p, k⟩
    refine ⟨l :: ls, by rw [List.length_cons, hlength], ?_,
      .cons (l := l) ⟨awaited_wait p n, hk⟩ hlaps⟩
    simpa [l] using hquiet

/-! ## The ticker of a node that runs -/

/-- A node whose ticker has been started. -/
structure Running (p : Platform) (n : Node ρ) : Prop where
  reachable : Reachable p n
  ticking : n.alarms.isArmed .upkeep = true

theorem Running.sameCore (hn : n.Running p) (h : n.SameCore m) : m.Running p where
  reachable := hn.reachable.sameCore h
  ticking := by
    rw [h.alarms]
    exact hn.ticking

theorem running_restartUpkeep (hn : Reachable p n) : (restartUpkeep p n now).Running p where
  reachable := by
    have hgranted : n.perform p (.command .restartUpkeep) now =
        .ok (.granted (restartUpkeep p n now)) := rfl
    exact hn.perform hgranted
  ticking := isArmed_restartUpkeep

/-- A node that runs has something to wait for. -/
theorem Running.exists_nextWake? (hn : n.Running p) : ∃ d, n.nextWake? = some d := by
  obtain ⟨d, hd⟩ := AlarmTable.isArmed_iff.1 hn.ticking
  exact AlarmTable.exists_nextDeadline? hd

theorem Running.handleTimer (hn : n.Running p) (h : handleTimer p n now = .ok m) : m.Running p where
  reachable := by
    have hgranted : n.perform p .handleTimer now = .ok (.granted m) := by
      rw [Node.perform, h]
      rfl
    exact hn.reachable.perform hgranted
  ticking := by
    obtain ⟨ms, hrung, -⟩ := rung_of_handleTimer h
    exact hrung.ticking ⟨hn.reachable.soundTracks, hn.reachable.orderly⟩ hn.ticking

theorem Running.handleCommand {out : Outcome (Node ρ)} (hn : n.Running p)
    (h : handleCommand p n c now = .ok out) : out.state.Running p where
  reachable := hn.reachable.perform (o := .command c) h
  ticking := ticking_perform (o := .command c) (by simp) h hn.ticking

/-! ## What a turn does -/

omit [RandomSource ρ] in
theorem sameCore_taken (l : Lap ρ) : l.woken.SameCore l.taken :=
  ⟨rfl, rfl, rfl, rfl, rfl, rfl, rfl, rfl⟩

omit [RandomSource ρ] in
theorem sameCore_emit (n : Node ρ) (e : TraceEvent) : n.SameCore (n.emit e) :=
  ⟨rfl, rfl, rfl, rfl, rfl, rfl, rfl, rfl⟩

namespace Lap.Valid

/-- A turn that finds no command lets alarms ring. -/
theorem handleTimer (h : l.Valid p) (hnone : l.command? = none) :
    handleTimer p l.woken l.woken.clock = .ok l.after := by
  have hturn := h.turn
  rw [Lap.command?] at hnone
  rw [Node.turn, hnone] at hturn
  exact hturn

/-- A turn that finds a command carries it out, and a refusal is written into the trace. -/
theorem handleCommand (h : l.Valid p) (hc : l.command? = some c) :
    ∃ out, handleCommand p l.taken c l.woken.clock = .ok out ∧
      (out.refusal = none → l.after = out.state) ∧
      ∀ r, out.refusal = some r → l.after = out.state.emit (.commandFailed r) := by
  have hturn := h.turn
  rw [Lap.command?] at hc
  rw [Node.turn, hc] at hturn
  obtain ⟨out, hout, hafter⟩ := Checked.bind_eq_ok_iff.1 hturn
  have hafter := Except.ok.inj hafter
  refine ⟨out, hout, fun hgranted => ?_, fun r hrefused => ?_⟩
  · rw [← hafter, hgranted]
  · rw [← hafter, hrefused]

/-- No turn stops the ticker. -/
theorem running (h : l.Valid p) (hn : l.before.Running p) : l.after.Running p := by
  have hwoken : l.woken.Running p := hn.sameCore h.awaited.same
  cases hcommand : l.command? with
  | none => exact hwoken.handleTimer (h.handleTimer hcommand)
  | some c =>
    obtain ⟨out, hout, hgranted, hrefused⟩ := h.handleCommand hcommand
    have hstate : out.state.Running p := (hwoken.sameCore (sameCore_taken l)).handleCommand hout
    cases hrefusal : out.refusal with
    | none =>
      rw [hgranted hrefusal]
      exact hstate
    | some r =>
      rw [hrefused r hrefusal]
      exact hstate.sameCore (sameCore_emit _ _)

/-- In a turn without a command at least one alarm rings, and the next one is still to come. -/
theorem rings (h : l.Valid p) (hn : l.before.Running p) (hnone : l.command? = none) :
    ∃ ms d, Rung p l.woken.clock l.woken ms l.after ∧ ms ≠ [] ∧ l.after.nextWake? = some d ∧
      l.woken.clock < d := by
  obtain ⟨ms, hrung, hsettled⟩ := rung_of_handleTimer (h.handleTimer hnone)
  have hlater := AlarmTable.ring?_eq_none_iff_next.1 hsettled
  obtain ⟨d, hd⟩ := (h.running hn).exists_nextWake?
  refine ⟨ms, d, hrung, ?_, hd, hlater d hd⟩
  rintro rfl
  -- Had none rung, the alarm that the node waited for would be due still.
  obtain ⟨e, he⟩ := hn.exists_nextWake?
  have hdue := h.awaited.due (Mailbox.oldest?_eq_none_iff.1 hnone)
  rw [wakeTime, he, Option.getD_some, Instant.le_iff] at hdue
  have hstill : l.after.nextWake? = some e := by
    rw [hrung.eq_of_nil, nextWake?, h.awaited.same.alarms]
    exact he
  have hlt := hlater e hstill
  rw [Instant.lt_iff] at hlt
  omega

/-- A command that is refused leaves nothing but its trace. -/
theorem refused (h : l.Valid p) (hn : l.before.Running p) {out : Outcome (Node ρ)} {r : Refusal}
    (hc : l.command? = some c) (hout : Node.handleCommand p l.taken c l.woken.clock = .ok out)
    (hr : out.refusal = some r) : l.after = l.taken.emit (.commandFailed r) := by
  have htaken : Reachable p l.taken :=
    ((hn.sameCore h.awaited.same).sameCore (sameCore_taken l)).reachable
  have hperform : l.taken.perform p (.command c) l.woken.clock = .ok out := hout
  have hjudged := (judged_perform htaken).refusal_eq hperform
  obtain ⟨out', hout', -, hrefused⟩ := h.handleCommand hc
  obtain rfl := Except.ok.inj (hout.symm.trans hout')
  rw [hrefused r hr, hjudged.2 (by simp [hr])]

end Lap.Valid

/-- All the turns of a node that runs are taken by a node that runs. -/
theorem Laps.running (h : Laps p n ls k) (hn : n.Running p) :
    (∀ l ∈ ls, l.Valid p ∧ l.before.Running p) ∧ k.Running p := by
  induction h with
  | nil => exact ⟨fun l hl => absurd hl List.not_mem_nil, hn⟩
  | @cons l ls k hl _ ih =>
    obtain ⟨hls, hk⟩ := ih (hl.running hn)
    refine ⟨fun l' hl' => ?_, hk⟩
    rcases List.mem_cons.1 hl' with rfl | hl'
    · exact ⟨hl, hn⟩
    · exact hls l' hl'

/-! ## The queue of commands -/

/-- Alarms that ring leave the queue alone. -/
theorem Rung.commands_eq {ms : List (Moment ρ)} (h : Rung p now n ms k) :
    k.commands = n.commands := by
  induction h with
  | start => rfl
  | ring hring hm _ ih =>
    obtain ⟨-, -, rfl, -⟩ := AlarmTable.ring?_eq_some hring
    exact ih.trans (confined_handleRing hm).commands

/-- A turn takes from the queue the command that it carries out. -/
theorem Lap.Valid.commands (h : l.Valid p) :
    l.before.commands.toList ++ l.arrived = l.command?.toList ++ l.after.commands.toList := by
  rw [← h.awaited.commands]
  cases hcommand : l.command? with
  | none =>
    obtain ⟨ms, hrung, -⟩ := rung_of_handleTimer (h.handleTimer hcommand)
    rw [hrung.commands_eq, Option.toList_none, List.nil_append]
  | some c =>
    obtain ⟨out, hout, hgranted, hrefused⟩ := h.handleCommand hcommand
    have hstate : out.state.commands = l.taken.commands :=
      (confined_perform (o := .command c) (by simp) hout).commands
    have hafter : l.after.commands = l.taken.commands := by
      cases hrefusal : out.refusal with
      | none => rw [hgranted hrefusal, hstate]
      | some r => rw [hrefused r hrefusal, emit, hstate]
    rw [Mailbox.oldest?_eq_some_iff.1 hcommand, hafter]
    rfl

/-- What has come, that is what has been carried out and what waits, in this order. -/
theorem Laps.in_order (h : Laps p n ls k) :
    n.commands.toList ++ ls.flatMap Lap.arrived =
      ls.filterMap Lap.command? ++ k.commands.toList := by
  induction h with
  | nil => simp
  | @cons l ls k hl _ ih =>
    calc l.before.commands.toList ++ (l :: ls).flatMap Lap.arrived
        = (l.before.commands.toList ++ l.arrived) ++ ls.flatMap Lap.arrived := by
          rw [List.flatMap_cons, List.append_assoc]
      _ = l.command?.toList ++ (l.after.commands.toList ++ ls.flatMap Lap.arrived) := by
          rw [hl.commands, List.append_assoc]
      _ = l.command?.toList ++ (ls.filterMap Lap.command? ++ k.commands.toList) := by rw [ih]
      _ = (l :: ls).filterMap Lap.command? ++ k.commands.toList := by
          cases hcommand : l.command? <;> simp [hcommand]

/-- As long as commands wait, every turn carries one out. -/
theorem Laps.min_le_served (h : Laps p n ls k) :
    min ls.length n.commands.toList.length ≤ (ls.filterMap Lap.command?).length := by
  induction h with
  | nil => exact Nat.min_le_left _ _
  | @cons l ls k hl _ ih =>
    cases hcommand : l.command? with
    | none =>
      have hempty := Mailbox.oldest?_eq_none_iff.1 hcommand
      rw [hl.awaited.commands, List.append_eq_nil_iff] at hempty
      rw [hempty.1]
      exact Nat.le_trans (Nat.min_le_right _ _) (Nat.zero_le _)
    | some c =>
      have hqueue := congrArg List.length hl.commands
      rw [hcommand, List.length_append, List.length_append, Option.toList_some,
        List.length_singleton] at hqueue
      rw [List.filterMap_cons_some hcommand, List.length_cons, List.length_cons]
      omega

/-- As many turns as commands wait are enough to carry these out. -/
theorem Laps.serves (h : Laps p n ls k) (hlength : n.commands.toList.length ≤ ls.length) :
    n.commands.toList <+: ls.filterMap Lap.command? := by
  have hserved := h.min_le_served
  rw [Nat.min_eq_right hlength] at hserved
  have hprefix : n.commands.toList <+: ls.filterMap Lap.command? ++ k.commands.toList := by
    rw [← h.in_order]
    exact List.prefix_append _ _
  exact List.prefix_of_prefix_length_le hprefix (List.prefix_append _ _) hserved

/-! ## The run loop -/

/-- A reachable node starts its ticker and takes turns, whatever commands it has and come, and
however late it is.  Before every turn it has an alarm to wait for.  A turn without a command lets
at least one alarm ring, and the next alarm is still to come.  A turn with one carries it out; if it
is refused, all that is left of it is an entry in the trace, or nothing if the trace has no room.
Commands are carried out in the order in which they came, each of them once, and those that waited
at the start are done after as many turns.

However the wait ends, the next turn is taken.  Only two things stop it: a counter without room for
three more when an alarm rings, and a statistic at its maximum when a command is carried out.  The
delays of the platform last at least one tick and the last instant has not come, for else an alarm
could be set again for the instant at which it rings. -/
theorem run_loop_makes_progress (hn : Reachable p n)
    (h : Laps p (restartUpkeep p n n.clock) ls k) :
    (∀ l ∈ ls, ∃ d, l.before.nextWake? = some d) ∧ (∃ d, k.nextWake? = some d) ∧
    (∀ l ∈ ls, l.command? = none →
      ∃ ms d, Rung p l.woken.clock l.woken ms l.after ∧ ms ≠ [] ∧ l.after.nextWake? = some d ∧
        l.woken.clock < d) ∧
    (∀ l ∈ ls, ∀ c, l.command? = some c →
      ∃ out, handleCommand p l.taken c l.woken.clock = .ok out ∧
        (out.refusal = none → l.after = out.state) ∧
        ∀ r, out.refusal = some r → l.after = { l.taken with trace := l.after.trace } ∧
          l.after.trace.toList = if l.taken.trace.hasRoom
            then l.taken.trace.toList ++ [.commandFailed r] else l.taken.trace.toList) ∧
    n.commands.toList ++ ls.flatMap Lap.arrived =
      ls.filterMap Lap.command? ++ k.commands.toList ∧
    (n.commands.toList.length ≤ ls.length → n.commands.toList <+: ls.filterMap Lap.command?) ∧
    ∀ arrived w, k.Awaited p arrived w →
      (w.commands.oldest? = none → 1 ≤ p.upkeepInterval.ticks → 1 ≤ p.postponeDelay.ticks →
        w.clock.ticks < maxTicks → (w.turn p).Returns ∨ w.turn p = .error .addOverflow ∧
          ∃ ms m, Rung p w.clock w ms m ∧ m.alarms.ring? w.clock ≠ none ∧
            ¬m.Within (wordLimit32 - 4)) ∧
      ∀ c, w.commands.oldest? = some c → p.reportLatency.ticks ≤ wordLimit64 / 2 → w.HasRoom →
        (w.turn p).Returns := by
  have hrunning := h.running (running_restartUpkeep hn)
  have hbefore (l : Lap ρ) (hl : l ∈ ls) : l.Valid p ∧ l.before.Running p := hrunning.1 l hl
  refine ⟨fun l hl => (hbefore l hl).2.exists_nextWake?, hrunning.2.exists_nextWake?,
    fun l hl hnone => (hbefore l hl).1.rings (hbefore l hl).2 hnone, fun l hl c hc => ?_,
    h.in_order, h.serves, fun arrived w hw => ⟨fun hnone hupkeep hpostpone hclock => ?_,
      fun c hc hlatency hroom => ?_⟩⟩
  · obtain ⟨hvalid, hn⟩ := hbefore l hl
    obtain ⟨out, hout, hgranted, -⟩ := hvalid.handleCommand hc
    refine ⟨out, hout, hgranted, fun r hr => ?_⟩
    rw [hvalid.refused hn hc hout hr]
    exact ⟨rfl, Mailbox.toList_offer _ _⟩
  · have hreach : Reachable p w := (hrunning.2.sameCore hw.same).reachable
    rw [turn, hnone]
    cases hresult : handleTimer p w w.clock with
    | ok m => exact .inl (.ok m)
    | error f =>
      obtain ⟨rfl, hfull⟩ := handleTimer_fault hreach hupkeep hpostpone hclock hresult
      exact .inr ⟨rfl, hfull⟩
  · rw [turn, hc]
    have htaken : Node.HasRoom { w with commands := w.commands.rest } :=
      ⟨hroom.counts, hroom.dodags, hroom.purges⟩
    exact (perform_returns (o := .command c) hlatency htaken (by simp)).bind fun out _ => .ok _

/-- A node to which three commands have been given, two of them about an instance that it does not
belong to. -/
def commanded : Node Generator :=
  (((Node.new (.fixed 0) .zero true).enqueue (.solicit 3)).enqueue .restartUpkeep).enqueue
    (.scheduleDao 3)

/-- It carries them out, two of them in vain, and then its ticker rings twice. -/
theorem run_loop_makes_progress_after_refusals :
    ∃ ls m, Laps .millis (restartUpkeep .millis commanded .zero) ls m ∧ ls.length = 5 ∧
      run .millis commanded 2 = .ok m ∧
      ls.filterMap Lap.command? = [.solicit 3, .restartUpkeep, .scheduleDao 3] ∧
      m.trace.toList = [.commandFailed .unknownInstance, .commandFailed .unknownInstance] ∧
      m.clock = .ofTicks 2000 ∧ ∃ d, m.nextWake? = some d := by
  obtain ⟨m, hm, hempty, htrace, hclock⟩ : ∃ m, run .millis commanded 2 = .ok m ∧
      m.commands.toList = [] ∧
      m.trace.toList = [.commandFailed .unknownInstance, .commandFailed .unknownInstance] ∧
      m.clock = .ofTicks 2000 :=
    ⟨_, rfl, rfl, rfl, rfl⟩
  obtain ⟨ls, hlength, hquiet, hlaps⟩ := laps_of_turns hm
  have hreach : Reachable .millis commanded :=
    (reachable_new .millis (Generator.fixed 0) .zero true).sameCore
      ⟨rfl, rfl, rfl, rfl, rfl, rfl, rfl, rfl⟩
  obtain ⟨-, hwake, -, -, horder, -, -⟩ :=
    run_loop_makes_progress hreach hlaps
  have harrived : ls.flatMap Lap.arrived = [] := List.flatMap_eq_nil_iff.2 hquiet
  rw [harrived, hempty, List.append_nil, List.append_nil] at horder
  exact ⟨ls, m, hlaps, hlength, hm, horder.symm, htrace, hclock, hwake⟩

end TrickleNet.Node
