import Mathlib
import TrickleNet.Proofs.Pause
import TrickleNet.Proofs.Requests
/-!
# Runs of a simulation

A simulation goes on by `Move`s: its owner adds stations, forms an instance or changes the world,
the next event on the agenda happens, or a run until some instant ends.  `Simulation.Run s₀ xs s`
says that moves lead from `s₀` to `s`, and its record `xs` holds every one of them with the
simulation before and after it.  The runs of `TrickleNet.Sim.Run` and the set-up of an experiment
are runs of this kind (`Run.runUntil`, `Run.runFor`, `Run.runSteps`, `run_of_setUp`).

Every move is a call into a station, which is settled afterwards, or else it is quiet
(`proceed_eq_ok`).  `Simulation.Called` lists the calls.  `Simulation.Sound` is what all runs keep,
and what later modules ask for before they look into a call: stations keep to their addresses, are
at rest between the calls, are reachable nodes, and know of no instance but the simulated one.
-/

namespace TrickleNet

/-- What makes a simulation go on. -/
inductive Move where
  /-- Another station is switched on. -/
  | addStation (seed : UInt64)
  /-- A station is made the root of the simulated instance. -/
  | form (a : Address)
  /-- A change to the world is put on the agenda. -/
  | plan (time : Instant) (action : Action)
  /-- The world is changed at once. -/
  | act (action : Action)
  /-- The radio map and the trickle parameters are replaced. -/
  | edit (radio : RadioMap) (params : TrickleParams)
  /-- Snapshots are to be taken at regular times. -/
  | sampleEvery (every : Span)
  /-- The next event on the agenda happens. -/
  | event
  /-- A run until an instant ends. -/
  | close (limit : Instant)

namespace Simulation

/-- Whether no event is due by an instant. -/
def idleUntil (s : Simulation) (limit : Instant) : Bool :=
  s.agenda.next?.all fun e => limit < e.1.time

/-- Makes a move.  A run does not end before the events have happened that are due by its end. -/
def proceed (s : Simulation) : Move → Checked Simulation
  | .addStation seed => s.addStation seed
  | .form a => s.form a
  | .plan time a => s.schedule time (.act a)
  | .act a => .ok (s.act a)
  | .edit radio params => .ok { s with radio, params }
  | .sampleEvery every => .ok (s.sampleEvery every)
  | .event => match s.agenda.next? with
    | none => .ok s
    | some (slot, h, rest) => s.step slot.time h rest
  | .close limit => .ok (if s.idleUntil limit then (s.advance limit).takeSnapshot else s)

/-- A move with the simulation before and after it. -/
structure Scene where
  /-- The simulation before the move. -/
  before : Simulation
  /-- The move. -/
  move : Move
  /-- The simulation after it. -/
  after : Simulation

/-- Moves lead from one simulation to another. -/
inductive Run (s₀ : Simulation) : List Scene → Simulation → Prop
  | start : Run s₀ [] s₀
  | move {xs : List Scene} {s s' : Simulation} {c : Move} :
      Run s₀ xs s → s.proceed c = .ok s' → Run s₀ (xs ++ [⟨s, c, s'⟩]) s'

/-- Makes moves one after the other and keeps the record. -/
def record : List Move → Simulation → Checked (List Scene × Simulation)
  | [], s => .ok ([], s)
  | c :: cs, s => do
    let m ← s.proceed c
    let (xs, s') ← record cs m
    return (⟨s, c, m⟩ :: xs, s')

variable {s₀ s s' m : Simulation} {xs ys : List Scene} {limit time : Instant} {c : Move}
  {slot : Agenda.Slot} {h : Happening} {rest : Agenda} {a : Address} {t t' : Station}

/-! ## The runs there are -/

theorem Run.append (hrun : Run s₀ xs s) (hrun' : Run s ys s') : Run s₀ (xs ++ ys) s' := by
  induction hrun' with
  | start => rwa [List.append_nil]
  | move _ hc ih =>
    rw [← List.append_assoc]
    exact ih.move hc

/-- What is recorded is the record of a run. -/
theorem run_of_record {cs : List Move} (hrecord : s.record cs = .ok (xs, s')) : Run s xs s' := by
  induction cs generalizing s xs with
  | nil =>
    cases hrecord
    exact .start
  | cons c cs ih =>
    obtain ⟨m, hm, hrecord⟩ := Checked.bind_eq_ok_iff.1 hrecord
    obtain ⟨⟨ys, u⟩, hys, hrecord⟩ := Checked.bind_eq_ok_iff.1 hrecord
    cases hrecord
    exact (Run.start.move hm).append (ih hys)

/-- The moves on record are those that were made. -/
theorem map_move_of_record {cs : List Move} (hrecord : s.record cs = .ok (xs, s')) :
    xs.map Scene.move = cs := by
  induction cs generalizing s xs with
  | nil =>
    cases hrecord
    rfl
  | cons c cs ih =>
    obtain ⟨m, hm, hrecord⟩ := Checked.bind_eq_ok_iff.1 hrecord
    obtain ⟨⟨ys, u⟩, hys, hrecord⟩ := Checked.bind_eq_ok_iff.1 hrecord
    cases hrecord
    rw [List.map_cons, ih hys]

theorem proceed_event (hnext : s.agenda.next? = some (slot, h, rest)) :
    s.proceed .event = s.step slot.time h rest := by
  rw [proceed, hnext]

/-- Letting events happen is a run. -/
theorem run_of_runEvents {budget : Nat} (hs : runEvents limit budget s = .ok s') :
    ∃ xs, Run s xs s' := by
  induction budget generalizing s with
  | zero =>
    cases hs
    exact ⟨[], .start⟩
  | succ budget ih =>
    rw [runEvents] at hs
    split at hs
    · cases hs
      exact ⟨[], .start⟩
    rename_i slot h rest hnext
    split at hs
    · obtain ⟨m, hm, hs⟩ := Checked.bind_eq_ok_iff.1 hs
      obtain ⟨xs, hxs⟩ := ih hs
      rw [← proceed_event hnext] at hm
      exact ⟨_, (Run.start.move hm).append hxs⟩
    · cases hs
      exact ⟨[], .start⟩

theorem Run.runUntil (hrun : Run s₀ xs s) (hs : s.runUntil limit = .ok s') :
    ∃ ys, Run s₀ (xs ++ ys) s' := by
  obtain ⟨m, hm, hs⟩ := Checked.bind_eq_ok_iff.1 hs
  obtain ⟨ys, hys⟩ := run_of_runEvents hm
  have hidle : m.idleUntil limit = true := by
    rw [idleUntil]
    cases hnext : m.agenda.next? with
    | none => rfl
    | some e => exact decide_eq_true (not_due_of_runEvents hm hnext)
  have hclose : m.proceed (.close limit) = .ok s' := by
    rw [proceed, hidle]
    exact hs
  exact ⟨_, hrun.append (hys.move hclose)⟩

theorem Run.runFor {span : Span} (hrun : Run s₀ xs s) (hs : s.runFor span = .ok s') :
    ∃ ys, Run s₀ (xs ++ ys) s' := hrun.runUntil hs

theorem Run.runSteps {count : Nat} (hrun : Run s₀ xs s) (hs : s.runSteps count = .ok s') :
    ∃ ys, Run s₀ (xs ++ ys) s' := by
  obtain ⟨m, hm, hs⟩ := Checked.bind_eq_ok_iff.1 hs
  obtain ⟨ys, hys⟩ := run_of_runEvents hm
  have hsnapshot : m.proceed (.act .snapshot) = .ok s' := hs
  exact ⟨_, hrun.append (hys.move hsnapshot)⟩

/-- Moves of one kind lead from one simulation to another. -/
def RunBy (P : Move → Prop) (s s' : Simulation) : Prop := ∃ xs, Run s xs s' ∧ ∀ x ∈ xs, P x.move

namespace RunBy

variable {P : Move → Prop}

theorem refl (s : Simulation) : RunBy P s s := ⟨[], .start, by simp⟩

theorem trans (h : RunBy P s₀ s) (h' : RunBy P s s') : RunBy P s₀ s' := by
  obtain ⟨xs, hxs, hP⟩ := h
  obtain ⟨ys, hys, hP'⟩ := h'
  refine ⟨xs ++ ys, hxs.append hys, fun x hx => ?_⟩
  rcases List.mem_append.1 hx with hx | hx
  · exact hP x hx
  · exact hP' x hx

theorem move (hc : s.proceed c = .ok s') (hP : P c) : RunBy P s s' :=
  ⟨_, Run.start.move hc, by simpa using hP⟩

/-- A fold whose steps are runs is a run. -/
theorem foldlM {α : Type} {f : Simulation → α → Checked Simulation} {l : List α}
    (hf : ∀ b a b', f b a = .ok b' → RunBy P b b') (hs : l.foldlM f s = .ok s') : RunBy P s s' :=
  Checked.foldlM_rel refl (fun _ _ _ => trans) (fun a _ b b' => hf b a b') hs

end RunBy

/-- The moves that set up an experiment. -/
inductive SetsUp (e : Experiment) : Move → Prop
  | edit : SetsUp e (.edit e.radio e.params)
  | sampleEvery (every : Span) : SetsUp e (.sampleEvery every)
  | addStation (seed : UInt64) : SetsUp e (.addStation seed)
  | setReady (a : Address) (ready : Bool) : SetsUp e (.act (.setReady a ready))
  | form : SetsUp e (.form (Experiment.address 0))
  | plan (time : Instant) (action : Action) : SetsUp e (.plan time action)

theorem runBy_setUp {e : Experiment} (hs : e.setUp = .ok s) : RunBy (SetsUp e) (.new e.seed) s := by
  obtain ⟨m₁, h₁, hs⟩ := Checked.bind_eq_ok_iff.1 hs
  have hworld : RunBy (SetsUp e) (.new e.seed) e.world := by
    have hedit : RunBy (SetsUp e) (.new e.seed)
        { Simulation.new e.seed with radio := e.radio, params := e.params } := .move rfl .edit
    rw [Experiment.world]
    dsimp only
    split
    · exact hedit
    · rename_i every _
      exact hedit.trans (.move rfl (.sampleEvery every))
  have hstations : RunBy (SetsUp e) e.world m₁ := by
    refine RunBy.foldlM (fun b i b' hb => ?_) h₁
    obtain ⟨m, hm, hb⟩ := Checked.bind_eq_ok_iff.1 hb
    have hadd : RunBy (SetsUp e) b m := .move (c := .addStation _) hm (.addStation _)
    cases hb
    split
    · exact hadd.trans (.move rfl (.setReady (Experiment.address i) false))
    · exact hadd
  obtain ⟨m₂, hroot, hs⟩ : ∃ m₂, RunBy (SetsUp e) m₁ m₂ ∧
      e.actions.foldlM (fun s a => s.schedule a.1 (.act a.2)) m₂ = .ok s := by
    dsimp only at hs
    split at hs
    · exact ⟨m₁, .refl m₁, hs⟩
    · obtain ⟨m₂, h₂, hs⟩ := Checked.bind_eq_ok_iff.1 hs
      exact ⟨m₂, .move (c := .form _) h₂ .form, hs⟩
  have hactions : RunBy (SetsUp e) m₂ s :=
    RunBy.foldlM (fun b x b' hb => .move (c := .plan x.1 x.2) hb (.plan x.1 x.2)) hs
  exact ((hworld.trans hstations).trans hroot).trans hactions

/-- The set-up of an experiment is a run. -/
theorem run_of_setUp {e : Experiment} (hs : e.setUp = .ok s) : ∃ xs, Run (.new e.seed) xs s := by
  obtain ⟨xs, hrun, -⟩ := runBy_setUp hs
  exact ⟨xs, hrun⟩

/-- What every move keeps holds at the end of a run. -/
theorem Run.invariant {I : Simulation → Prop} (hrun : Run s₀ xs s)
    (hstep : ∀ s c s', I s → s.proceed c = .ok s' → I s') (h₀ : I s₀) : I s := by
  induction hrun with
  | start => exact h₀
  | move _ hc ih => exact hstep _ _ _ ih hc

/-- Each scene of a run begins at the end of an earlier run. -/
theorem Run.cut (hrun : Run s₀ xs s) {x : Scene} (hx : x ∈ xs) :
    ∃ ys zs, xs = ys ++ x :: zs ∧ Run s₀ ys x.before ∧ x.before.proceed x.move = .ok x.after ∧
      Run x.after zs s := by
  induction hrun with
  | start => cases hx
  | @move xs s s' c hrun hc ih =>
    rcases List.mem_append.1 hx with hx | hx
    · obtain ⟨ys, zs, rfl, hys, hmove, hzs⟩ := ih hx
      refine ⟨ys, zs ++ [⟨s, c, s'⟩], ?_, hys, hmove, hzs.move hc⟩
      rw [List.append_assoc, List.cons_append]
    · obtain rfl := List.mem_singleton.1 hx
      exact ⟨xs, [], rfl, hrun, hc, .start⟩

/-! ## Moves and calls -/

/-- The simulation as a call that comes with a move finds it. -/
def opened (s : Simulation) : Move → Simulation
  | .event => match s.agenda.next? with
    | none => s
    | some (slot, _, rest) => s.taken slot.time rest
  | .close limit => if s.idleUntil limit then s.advance limit else s
  | _ => s

/-- A move comes with a call into a station, which takes it from `t` to `t'`. -/
inductive Called (s : Simulation) : Move → Station → Station → Prop
  /-- The station has just been switched on. -/
  | start {seed : UInt64} {t : Station} :
      (Station.new s.nextAddress seed s.now).start s.now = .ok t →
        Called s (.addStation seed) (.new s.nextAddress seed s.now) t
  /-- The station is to be a root. -/
  | form {a : Address} {t : Station} {out : Outcome Station} :
      s.stations.find? a = some t → t.form simulatedInstance s.params s.now = .ok out →
        Called s (.form a) t out.state
  /-- Something happens to the station. -/
  | event {slot : Agenda.Slot} {h : Happening} {rest : Agenda} {t t' : Station} :
      s.agenda.next? = some (slot, h, rest) → (s.taken slot.time rest).Handled h t t' →
        Called s .event t t'

/-- The move is an event for a deadline of a station. -/
def Wakes (s : Simulation) (c : Move) (a : Address) (deadline : Instant) : Prop :=
  c = .event ∧ ∃ slot rest, s.agenda.next? = some (slot, .wake a deadline, rest)

theorem quiet_schedule {action : Action} (hs : s.schedule time (.act action) = .ok s') :
    s.Quiet s' := by
  obtain ⟨agenda, hagenda, hs⟩ := Checked.bind_eq_ok_iff.1 hs
  cases hs
  refine ⟨.inl rfl, rfl, rfl, ⟨[], (List.append_nil _).symm, by simp⟩, ?_⟩
  exact Agenda.grows_schedule hagenda fun _ => ⟨action, rfl⟩

/-- A move comes with a call into a station, after which what the station did is collected, or else
it is quiet and no station waits for it. -/
theorem proceed_eq_ok (hs : s.proceed c = .ok s') :
    (s.opened c).Quiet s' ∧ (∀ a deadline t, s.Wakes c a deadline → s.stations.find? a = some t →
        t.wake ≠ some deadline) ∨
      ∃ t t', s.Called c t t' ∧ (s.opened c).Settled t' s' := by
  have hother (hc : c ≠ .event) (hquiet : (s.opened c).Quiet s') :
      (s.opened c).Quiet s' ∧ (∀ a deadline t, s.Wakes c a deadline →
        s.stations.find? a = some t → t.wake ≠ some deadline) :=
    ⟨hquiet, fun _ _ _ hwakes => absurd hwakes.1 hc⟩
  cases c with
  | addStation seed =>
    obtain ⟨t, ht, hs⟩ := Checked.bind_eq_ok_iff.1 hs
    exact .inr ⟨_, t, .start ht, settled_of_settle hs⟩
  | form a =>
    simp only [proceed, form] at hs
    split at hs
    · cases hs
      exact .inl (hother (by simp) (.refl s))
    · rename_i t ht
      obtain ⟨out, hout, hs⟩ := Checked.bind_eq_ok_iff.1 hs
      exact .inr ⟨t, _, .form ht hout, settled_of_settle hs⟩
  | plan time action => exact .inl (hother (by simp) (quiet_schedule hs))
  | act action =>
    cases hs
    exact .inl (hother (by simp) (quiet_act s action))
  | edit radio params =>
    cases hs
    exact .inl (hother (by simp)
      ⟨.inl rfl, rfl, rfl, ⟨[], (List.append_nil _).symm, by simp⟩, .refl _⟩)
  | sampleEvery every =>
    cases hs
    exact .inl (hother (by simp)
      ⟨.inl rfl, rfl, rfl, ⟨[], (List.append_nil _).symm, by simp⟩, .refl _⟩)
  | event =>
    cases hnext : s.agenda.next? with
    | none =>
      rw [proceed, hnext] at hs
      rw [opened, hnext]
      cases hs
      refine .inl ⟨.refl s, ?_⟩
      rintro a deadline t ⟨-, slot, rest, hsome⟩
      rw [hnext] at hsome
      cases hsome
    | some e =>
      obtain ⟨slot, h, rest⟩ := e
      rw [proceed_event hnext] at hs
      rw [opened, hnext]
      rcases step_eq_ok hs with ⟨hquiet, hstale⟩ | ⟨t, t', hhandled, hsettled⟩
      · refine .inl ⟨hquiet, ?_⟩
        rintro a deadline t ⟨-, slot', rest', hsome⟩
        cases hnext.symm.trans hsome
        exact hstale a deadline t rfl
      · exact .inr ⟨t, t', .event hnext hhandled, hsettled⟩
  | close limit =>
    cases hs
    refine .inl (hother (by simp) ?_)
    rw [opened]
    split
    · exact quiet_takeSnapshot _
    · exact .refl s

end Simulation

end TrickleNet
