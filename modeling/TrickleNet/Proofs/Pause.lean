import Mathlib
import TrickleNet.Proofs.Collecting
import TrickleNet.Sim.Experiment
/-!
# Pausing a simulation

A run up to an instant may be paused at an earlier one and go on from there.  Apart from the
snapshot that is taken at the pause this changes nothing (`Simulation.runUntil_runUntil`), for three
reasons.

The loop does not depend on its budget as long as that is the budget of the agenda (`runEvents_eq`),
so a run to the earlier instant followed by one to the later one lets the same events happen
(`runEvents_runEvents`).  The present is moved on at the pause, but not past the next event, which
would have moved it on further (`runUntil_advance`).  And nothing reads the snapshots, so a
simulation with others in its logbook does the same (`Simulation.remember`, and the lemmas
`*_remember`).
-/

namespace TrickleNet.Simulation

variable {s s' : Simulation} {t₁ t₂ limit time : Instant} {past : List Snapshot} {a : Address}
  {c : Control} {t : Station}

/-! ## The loop -/

/-- The events that are due by `limit` happen one by one.  The budget of the agenda is enough for
all of them. -/
theorem runEvents_eq (limit : Instant) (s : Simulation) :
    runEvents limit s.agenda.budget s = match s.agenda.next? with
      | none => .ok s
      | some (slot, h, rest) =>
        if slot.time ≤ limit then do
          let m ← s.step slot.time h rest
          runEvents limit m.agenda.budget m
        else .ok s := by
  cases hnext : s.agenda.next? with
  | none =>
    cases s.agenda.budget with
    | zero => rfl
    | succ budget => rw [runEvents, hnext]
  | some e =>
    obtain ⟨slot, h, rest⟩ := e
    rw [Agenda.budget_of_next? hnext, runEvents, hnext]
    dsimp only
    split
    · cases hstep : s.step slot.time h rest with
      | error f => rfl
      | ok m =>
        rw [← budget_step hstep]
        rfl
    · rfl

/-- The events that are due by the first of two instants happen before the others. -/
theorem runEvents_runEvents (h : t₁ ≤ t₂) (s : Simulation) :
    (do let m ← runEvents t₁ s.agenda.budget s
        runEvents t₂ m.agenda.budget m) = runEvents t₂ s.agenda.budget s := by
  generalize hn : s.agenda.budget = n
  induction n generalizing s with
  | zero =>
    rw [runEvents, runEvents]
    show runEvents t₂ s.agenda.budget s = .ok s
    rw [hn, runEvents]
  | succ n ih =>
    rw [← hn, runEvents_eq t₁, runEvents_eq t₂ s]
    cases hnext : s.agenda.next? with
    | none =>
      show runEvents t₂ s.agenda.budget s = .ok s
      rw [runEvents_eq, hnext]
    | some e =>
      obtain ⟨slot, happening, rest⟩ := e
      dsimp only
      by_cases hdue : slot.time ≤ t₁
      · have hdue' : slot.time ≤ t₂ := Nat.le_trans hdue h
        rw [if_pos hdue, if_pos hdue']
        cases hstep : s.step slot.time happening rest with
        | error f => rfl
        | ok m =>
          have hbudget : m.agenda.budget = n := by
            have := Agenda.budget_of_next? hnext
            have := budget_step hstep
            omega
          have := ih m hbudget
          rw [← hbudget] at this
          exact this
      · rw [if_neg hdue]
        show runEvents t₂ s.agenda.budget s = _
        rw [runEvents_eq, hnext]

/-- When the events that are due by `limit` have happened, none is left of them. -/
theorem not_due_of_runEvents (h : runEvents limit s.agenda.budget s = .ok s') {slot : Agenda.Slot}
    {happening : Happening} {rest : Agenda}
    (hnext : s'.agenda.next? = some (slot, happening, rest)) : limit < slot.time := by
  generalize hn : s.agenda.budget = n at h
  induction n generalizing s with
  | zero =>
    cases h
    have := Agenda.budget_of_next? hnext
    omega
  | succ n ih =>
    rw [← hn, runEvents_eq] at h
    split at h
    · rename_i hnone
      cases h
      rw [hnone] at hnext
      cases hnext
    · rename_i slot' happening' rest' hsome
      split at h
      · obtain ⟨m, hm, h⟩ := Checked.bind_eq_ok_iff.1 h
        have hbudget : m.agenda.budget = n := by
          have := Agenda.budget_of_next? hsome
          have := budget_step hm
          omega
        exact ih hbudget (hbudget ▸ h)
      · rename_i hdue
        cases h
        cases hsome.symm.trans hnext
        exact Nat.lt_of_not_le hdue

/-! ## The present at a pause -/

theorem advance_advance (h : t₁ ≤ time) : (s.advance t₁).advance time = s.advance time := by
  have : (s.now.later t₁).later time = s.now.later time := by
    rw [Instant.le_iff] at h
    rw [Instant.ext_iff]
    simp only [Instant.ticks_later]
    omega
  unfold advance
  rw [this]

/-- The present may be moved on before the next event. -/
theorem runUntil_advance (h : t₁ ≤ t₂)
    (hnext : ∀ slot happening rest, s.agenda.next? = some (slot, happening, rest) →
      t₁ ≤ slot.time) :
    (s.advance t₁).runUntil t₂ = s.runUntil t₂ := by
  have hend : ((s.advance t₁).advance t₂).takeSnapshot = (s.advance t₂).takeSnapshot := by
    rw [advance_advance h]
  have hagenda : (s.advance t₁).agenda = s.agenda := rfl
  rw [runUntil, runUntil, runEvents_eq, runEvents_eq, hagenda]
  cases hs : s.agenda.next? with
  | none => exact congrArg Except.ok hend
  | some e =>
    obtain ⟨slot, happening, rest⟩ := e
    dsimp only
    split
    · have hstep : (s.advance t₁).step slot.time happening rest =
          s.step slot.time happening rest := by
        unfold step
        have := advance_advance (s := { s with agenda := rest }) (hnext slot happening rest hs)
        rw [← this]
        rfl
      rw [hstep]
    · exact congrArg Except.ok hend

/-- A run may be cut after the events that are due by an earlier instant. -/
theorem runEvents_runUntil (h : t₁ ≤ t₂) (s : Simulation) :
    (do let m ← runEvents t₁ s.agenda.budget s
        m.runUntil t₂) = s.runUntil t₂ := by
  rw [runUntil, ← runEvents_runEvents h, bind_assoc]
  rfl

/-! ## Snapshots of the past -/

/-- The simulation with more snapshots at the front of its logbook. -/
def remember (past : List Snapshot) (s : Simulation) : Simulation :=
  { s with logbook := { s.logbook with snapshots := past ++ s.logbook.snapshots } }

theorem remember_eq (h : s.logbook.snapshots = []) :
    s.remember past = { s with logbook := { s.logbook with snapshots := past } } := by
  rw [remember, h, List.append_nil]

@[simp] theorem stations_remember : (s.remember past).stations = s.stations := rfl

@[simp] theorem now_remember : (s.remember past).now = s.now := rfl

@[simp] theorem agenda_remember : (s.remember past).agenda = s.agenda := rfl

@[simp] theorem sampling_remember : (s.remember past).sampling = s.sampling := rfl

/-- A change that each step of a fold passes on may be made before the fold or after it. -/
theorem foldlM_hom {α β : Type} (f : β → α → Checked β) (g : β → β)
    (hstep : ∀ b a, f (g b) a = g <$> f b a) (l : List α) (b : β) :
    l.foldlM f (g b) = g <$> l.foldlM f b := by
  induction l generalizing b with
  | nil => rfl
  | cons a l ih =>
    rw [List.foldlM_cons, List.foldlM_cons, hstep, bind_map_left, map_bind]
    exact congrArg _ (funext ih)

theorem schedule_remember (past : List Snapshot) (s : Simulation) (time : Instant) (h : Happening) :
    (s.remember past).schedule time h = remember past <$> s.schedule time h := by
  unfold schedule
  rw [map_bind]
  rfl

theorem sendFrame_remember (past : List Snapshot) (s : Simulation) (sender : Address) (c : Control)
    (receiver : Address) :
    (s.remember past).sendFrame sender c receiver =
      remember past <$> s.sendFrame sender c receiver := by
  unfold sendFrame
  dsimp only [remember]
  split
  · rfl
  split
  swap
  · rfl
  split
  · rfl
  · rw [map_bind]
    exact congrArg _ (funext fun e => schedule_remember past { s with radioState := e.2 } _ _)

theorem transmit_remember (past : List Snapshot) (s : Simulation) (sender : Address) (c : Control) :
    (s.remember past).transmit sender c = remember past <$> s.transmit sender c :=
  foldlM_hom (fun (s : Simulation) receiver => s.sendFrame sender c receiver) (remember past)
    (fun s receiver => sendFrame_remember past s sender c receiver) _
    { s with logbook := s.logbook.noteSent c }

theorem planWake_remember (past : List Snapshot) (s : Simulation) (t : Station) :
    (s.remember past).planWake t = remember past <$> s.planWake t := by
  unfold planWake
  dsimp only
  split
  · rfl
  split
  · rfl
  · exact schedule_remember past (s.putStation { t with wake := t.node.nextWake? }) _ _

theorem settle_remember (past : List Snapshot) (s : Simulation) (t : Station) :
    (s.remember past).settle t = remember past <$> s.settle t := by
  -- The station and the simulation between the call and the messages.
  let idle : Station := { t with node := t.node.takeTrace.2.takeOutbox.2 }
  let noted : Simulation :=
    { s.putStation idle with
      logbook :=
        s.logbook.noteLiveness (LivenessRecord.ofTrace s.now t.address t.node.takeTrace.1) }
  let messages : List Control := t.node.takeTrace.2.takeOutbox.1
  let put (s : Simulation) (c : Control) : Checked Simulation := s.transmit t.address c
  have hfold : messages.foldlM put (noted.remember past) =
      remember past <$> messages.foldlM put noted :=
    foldlM_hom put (remember past) (fun s c => transmit_remember past s t.address c) messages noted
  show messages.foldlM put (noted.remember past) >>= (fun m => m.planWake idle) =
    remember past <$> (messages.foldlM put noted >>= fun m => m.planWake idle)
  rw [hfold, map_bind, bind_map_left]
  exact congrArg _ (funext fun m => planWake_remember past m idle)

theorem deliver_remember (past : List Snapshot) (s : Simulation) (sender receiver : Address)
    (c : Control) :
    (s.remember past).deliver sender receiver c =
      remember past <$> s.deliver sender receiver c := by
  rw [deliver, deliver, stations_remember]
  split
  · rfl
  · rename_i t _
    rw [map_bind]
    refine congrArg (s.hear t sender c >>= ·) (funext fun x => ?_)
    obtain ⟨reported, t⟩ := x
    cases reported with
    | false => exact settle_remember past { s with logbook := s.logbook.noteDelivered } t
    | true => exact settle_remember past { s with logbook := s.logbook.noteDelivered.noteReport } t

theorem wake_remember (past : List Snapshot) (s : Simulation) (a : Address) (deadline : Instant) :
    (s.remember past).wake a deadline = remember past <$> s.wake a deadline := by
  rw [wake, wake, stations_remember, now_remember]
  split
  · rfl
  split
  · rw [map_bind]
    exact congrArg _ (funext fun t => settle_remember past s t)
  · rfl

theorem takeSnapshot_remember (past : List Snapshot) (s : Simulation) :
    (s.remember past).takeSnapshot = s.takeSnapshot.remember past := by
  unfold takeSnapshot Logbook.addSnapshot
  dsimp only [remember]
  rw [List.append_assoc]
  rfl

theorem sample_remember (past : List Snapshot) (s : Simulation) :
    (s.remember past).sample = s.sample.remember past := by
  rw [sample, sample, sampling_remember, now_remember]
  split
  · rfl
  split
  · rw [takeSnapshot_remember]
    rfl
  · rfl

theorem act_remember (past : List Snapshot) (s : Simulation) (a : Action) :
    (s.remember past).act a = (s.act a).remember past := by
  cases a with
  | snapshot => exact takeSnapshot_remember past s
  | _ => rfl

theorem happen_remember (past : List Snapshot) (s : Simulation) (h : Happening) :
    (s.remember past).happen h = remember past <$> s.happen h := by
  cases h with
  | deliver sender receiver c => exact deliver_remember past s sender receiver c
  | wake a deadline => exact wake_remember past s a deadline
  | act a => exact congrArg Except.ok (act_remember past s a)

theorem step_remember (past : List Snapshot) (s : Simulation) (time : Instant) (h : Happening)
    (rest : Agenda) :
    (s.remember past).step time h rest = remember past <$> s.step time h rest := by
  unfold step
  rw [map_bind]
  refine (congrArg (· >>= _)
    (happen_remember past ({ s with agenda := rest }.advance time) h)).trans ?_
  rw [bind_map_left]
  exact congrArg _ (funext fun m => congrArg Except.ok (sample_remember past m))

theorem runEvents_remember (past : List Snapshot) (limit : Instant) (budget : Nat)
    (s : Simulation) :
    runEvents limit budget (s.remember past) = remember past <$> runEvents limit budget s := by
  induction budget generalizing s with
  | zero => rfl
  | succ budget ih =>
    rw [runEvents, runEvents, agenda_remember]
    split
    · rfl
    split
    · rw [step_remember, map_bind, bind_map_left]
      exact congrArg _ (funext ih)
    · rfl

theorem runUntil_remember (past : List Snapshot) (s : Simulation) (limit : Instant) :
    (s.remember past).runUntil limit = remember past <$> s.runUntil limit := by
  rw [runUntil, runUntil, agenda_remember, runEvents_remember, map_bind, bind_map_left]
  exact congrArg _ (funext fun m =>
    congrArg Except.ok (takeSnapshot_remember past (m.advance limit)))

/-! ## A pause -/

/-- An event that is due by `limit` does not move the present on past it. -/
theorem later_of_runEvents (budget : Nat) (h : runEvents limit budget s = .ok s') :
    s'.now.later limit = s.now.later limit := by
  induction budget generalizing s with
  | zero =>
    cases h
    rfl
  | succ budget ih =>
    rw [runEvents] at h
    split at h
    · cases h
      rfl
    split at h
    · rename_i slot happening rest _ hdue
      obtain ⟨m, hm, h⟩ := Checked.bind_eq_ok_iff.1 h
      rw [ih h, now_step hm, Instant.ext_iff]
      rw [Instant.le_iff] at hdue
      simp only [Instant.ticks_later]
      omega
    · cases h
      rfl

/-- How a run that was paused at `m` ended, next to how it ends without the pause: the only
difference is the snapshot of `m`, which stands between those that were taken before the pause and
the others. -/
structure SnapshotMore (m ending paused : Simulation) : Prop where
  same : paused =
    { ending with logbook := { ending.logbook with snapshots := paused.logbook.snapshots } }
  snapshots : ∃ before after, ending.logbook.snapshots = before ++ after ∧
    m.logbook.snapshots = before ++ [m.snapshot] ∧
    paused.logbook.snapshots = before ++ m.snapshot :: after

/-- A pause at `t₁` does not change what a run until `t₂` comes to, whether that is a fault or a
simulation.  The simulation at the end has the stations, the radio, the agenda, the present, the
state of the generator, the time of the next regular snapshot and the logbook that it has without
the pause, except for one more snapshot.  It was taken at the pause, at `t₁` or at the time that the
simulation had reached already. -/
theorem runUntil_runUntil (s : Simulation) (h : t₁ ≤ t₂) :
    match s.runUntil t₂ with
    | .error f => (do (← s.runUntil t₁).runUntil t₂) = .error f
    | .ok ending => ∃ m paused, s.runUntil t₁ = .ok m ∧ m.snapshot.time = s.now.later t₁ ∧
        m.runUntil t₂ = .ok paused ∧ m.SnapshotMore ending paused := by
  have hcut := runEvents_runUntil h s
  rw [runUntil.eq_1 s t₁]
  cases hm : runEvents t₁ s.agenda.budget s with
  | error f =>
    rw [hm] at hcut
    rw [← hcut]
    rfl
  | ok m =>
    rw [hm] at hcut
    rw [← hcut]
    -- Apart from what the logbook holds already, both runs go on from `fresh`.
    let before := m.logbook.snapshots
    let fresh : Simulation := { m with logbook := { m.logbook with snapshots := [] } }
    let pause := (m.advance t₁).takeSnapshot
    have hdirect : m = fresh.remember before := by
      rw [remember_eq rfl]
    have hpause : pause = (fresh.advance t₁).remember (before ++ [pause.snapshot]) := by
      rw [remember_eq rfl]
      rfl
    have hdirectEnd : m.runUntil t₂ = remember before <$> fresh.runUntil t₂ := by
      rw [← runUntil_remember, ← hdirect]
    have hpauseEnd :
        pause.runUntil t₂ = remember (before ++ [pause.snapshot]) <$> fresh.runUntil t₂ := by
      have hadvance := runUntil_advance (s := fresh) h fun slot happening rest hnext =>
        Nat.le_of_lt (not_due_of_runEvents hm hnext)
      rw [← hadvance, ← runUntil_remember, ← hpause]
    show match m.runUntil t₂ with
      | .error f => pause.runUntil t₂ = .error f
      | .ok ending => ∃ m' paused, Except.ok pause = .ok m' ∧ m'.snapshot.time = s.now.later t₁ ∧
          m'.runUntil t₂ = .ok paused ∧ m'.SnapshotMore ending paused
    rw [hdirectEnd, hpauseEnd]
    cases hend : fresh.runUntil t₂ with
    | error f => rfl
    | ok u =>
      refine ⟨pause, u.remember (before ++ [pause.snapshot]), rfl, ?_, ?_, rfl, before,
        u.logbook.snapshots, rfl, rfl, ?_⟩
      · exact later_of_runEvents _ hm
      · rw [hpauseEnd, hend]
        rfl
      · exact List.append_assoc before [pause.snapshot] u.logbook.snapshots

/-- Two stations are paused before the advertisement of the first one reaches the other. -/
theorem runUntil_runUntil_steady :
    ∃ s m ending paused, (Experiment.steady 2).setUp = .ok s ∧
      s.runUntil (.ofTicks 600) = .ok m ∧ m.logbook.delivered = 0 ∧
      Instant.ofTicks 600 ≤ .ofTicks 1010 ∧
      s.runUntil (.ofTicks 1010) = .ok ending ∧ ending.logbook.delivered = 1 ∧
      m.runUntil (.ofTicks 1010) = .ok paused ∧ m.SnapshotMore ending paused := by
  obtain ⟨s, m, ending, hs, hm, hnone, hending, hone⟩ :
      ∃ s m ending, (Experiment.steady 2).setUp = .ok s ∧ s.runUntil (.ofTicks 600) = .ok m ∧
        m.logbook.delivered = 0 ∧ s.runUntil (.ofTicks 1010) = .ok ending ∧
        ending.logbook.delivered = 1 := ⟨_, _, _, rfl, rfl, rfl, rfl, rfl⟩
  have hle : Instant.ofTicks 600 ≤ .ofTicks 1010 := by decide
  have hpause := runUntil_runUntil s hle
  rw [hending] at hpause
  obtain ⟨m', paused, hm', -, hpaused, hmore⟩ := hpause
  obtain rfl := Except.ok.inj (hm.symm.trans hm')
  exact ⟨s, m, ending, paused, hs, hm, hnone, hle, hending, hone, hpaused, hmore⟩

end TrickleNet.Simulation
