import Mathlib
import TrickleNet.Proofs.Agenda
import TrickleNet.Proofs.Keys
import TrickleNet.Sim.Simulation
/-!
# What a simulation collects from a station

After each call into a station `Simulation.settle` reads its trace, puts its messages on the air and
plans its next alarm.  `Simulation.Settled s t s'` says what comes of that, without the order in
which it happens: the station is put back at rest (`Station.rested`), its decisions about parents
are in the logbook, and all that the agenda has gained are frames of that station and its next
alarm.

An event is a call into a station, which is settled afterwards, or else it is `Simulation.Quiet`: no
station is called (`step_eq_ok`).
-/

namespace TrickleNet

/-- A relation that each step of a fold keeps to holds between its ends. -/
theorem Checked.foldlM_rel {α β : Type} {R : β → β → Prop} {f : β → α → Checked β} {l : List α}
    {b b' : β} (hrefl : ∀ c, R c c) (htrans : ∀ c₁ c₂ c₃, R c₁ c₂ → R c₂ c₃ → R c₁ c₃)
    (hstep : ∀ a ∈ l, ∀ b b', f b a = .ok b' → R b b') (h : l.foldlM f b = .ok b') : R b b' := by
  induction l generalizing b with
  | nil =>
    cases h
    exact hrefl _
  | cons a l ih =>
    rw [List.foldlM_cons] at h
    obtain ⟨c, hc, h⟩ := Checked.bind_eq_ok_iff.1 h
    have hrest := ih (fun x hx => hstep x (List.mem_cons_of_mem a hx)) h
    exact htrans _ _ _ (hstep a List.mem_cons_self b c hc) hrest

/-- The station once its trace and its outbox were emptied and its next alarm was planned. -/
def Station.rested (t : Station) : Station :=
  { t with
    node := { t.node with trace := ∅, outbox := ∅ }
    wake := t.node.nextWake? }

namespace Simulation

variable {s s' s'' : Simulation} {t : Station} {a sender receiver : Address} {c : Control}
  {messages : List Control}

/-! ## The air -/

/-- A frame of the sender that is not delivered before `now`. -/
def Flying (now : Instant) (sender : Address) (messages : List Control) (slot : Agenda.Slot)
    (h : Happening) : Prop :=
  ∃ receiver, ∃ c ∈ messages, h = .deliver sender receiver c ∧ now ≤ slot.time

/-- Some of the messages were put on the air, and nothing else was done. -/
structure Airs (sender : Address) (messages : List Control) (s s' : Simulation) : Prop where
  same : ∃ agenda radioState sent lost,
    s' = { s with agenda, radioState, logbook := { s.logbook with sent, lost } }
  agenda : s.agenda.Grows (Flying s.now sender messages) s'.agenda

theorem Airs.refl (s : Simulation) : Airs sender messages s s := ⟨⟨_, _, _, _, rfl⟩, .refl _⟩

theorem Airs.trans (h : Airs sender messages s s') (h' : Airs sender messages s' s'') :
    Airs sender messages s s'' := by
  obtain ⟨agenda, radioState, sent, lost, rfl⟩ := h.same
  obtain ⟨agenda', radioState', sent', lost', rfl⟩ := h'.same
  exact ⟨⟨_, _, _, _, rfl⟩, h.agenda.trans h'.agenda⟩

/-- What comes of a frame: nothing if there is no link that is up, and otherwise it is lost, or put
on the agenda for the time after the delay and the extra delay. -/
theorem sendFrame_eq_ok (h : s.sendFrame sender c receiver = .ok s') :
    s.radio.connected sender receiver = false ∧ s' = s ∨
    ∃ l, s.radio.link? sender receiver = some l ∧ l.active = true ∧
      ((∃ radioState, l.losesFrame s.radioState = (true, radioState) ∧
          s' = { s with radioState, logbook := s.logbook.noteLost }) ∨
        ∃ extra state radioState agenda, l.extraDelay state = .ok (extra, radioState) ∧
          s.agenda.schedule (s.now + l.delay + extra) (.deliver sender receiver c) = .ok agenda ∧
          s' = { s with radioState, agenda }) := by
  unfold sendFrame at h
  split at h
  · rename_i hnone
    cases h
    exact .inl ⟨by rw [RadioMap.connected, hnone, Option.any_none], rfl⟩
  rename_i l hl
  split at h
  swap
  · rename_i hdown
    cases h
    exact .inl ⟨by rw [RadioMap.connected, hl, Option.any_some, Bool.eq_false_iff.2 hdown], rfl⟩
  rename_i hup
  refine .inr ⟨l, hl, hup, ?_⟩
  split at h
  · rename_i hlost
    cases h
    exact .inl ⟨_, hlost, rfl⟩
  · obtain ⟨⟨extra, radioState⟩, hextra, h⟩ := Checked.bind_eq_ok_iff.1 h
    obtain ⟨agenda, hagenda, h⟩ := Checked.bind_eq_ok_iff.1 h
    cases h
    exact .inr ⟨extra, _, radioState, agenda, hextra, hagenda, rfl⟩

theorem airs_sendFrame (hc : c ∈ messages) (h : s.sendFrame sender c receiver = .ok s') :
    Airs sender messages s s' := by
  rcases sendFrame_eq_ok h with
    ⟨-, rfl⟩ | ⟨l, -, -, ⟨radioState, -, rfl⟩ | ⟨extra, state, radioState, agenda, -, hagenda, rfl⟩⟩
  · exact .refl _
  · exact ⟨⟨_, _, _, _, rfl⟩, .refl _⟩
  · refine ⟨⟨_, _, _, _, rfl⟩, Agenda.grows_schedule hagenda fun number => ?_⟩
    refine ⟨receiver, c, hc, rfl, ?_⟩
    have hle := s.now.ticks_le
    simp only [Instant.le_iff, Instant.ticks_add]
    omega

theorem airs_transmit (hc : c ∈ messages) (h : s.transmit sender c = .ok s') :
    Airs sender messages s s' := by
  have hnoted : Airs sender messages s { s with logbook := s.logbook.noteSent c } :=
    ⟨⟨_, _, _, _, rfl⟩, .refl _⟩
  refine hnoted.trans (Checked.foldlM_rel .refl (fun _ _ _ => .trans) ?_ h)
  intro receiver _ b b' hb
  exact airs_sendFrame hc hb

/-! ## After a call -/

/-- The alarm that the station waits for, not planned before `now`. -/
def Waking (now : Instant) (t : Station) (slot : Agenda.Slot) (h : Happening) : Prop :=
  ∃ deadline, t.node.nextWake? = some deadline ∧ h = .wake t.address deadline ∧
    slot.time = now.later deadline

/-- The station was put back and what it did was collected. -/
structure Settled (s : Simulation) (t : Station) (s' : Simulation) : Prop where
  stations : s'.stations = s.stations.insert t.address t.rested
  now : s'.now = s.now
  liveness : s'.logbook.liveness =
    s.logbook.liveness ++ LivenessRecord.ofTrace s.now t.address t.node.trace.toList
  snapshots : ∃ more, s'.logbook.snapshots = s.logbook.snapshots ++ more ∧
    ∀ x ∈ more, x.time = s.now
  agenda : s.agenda.Grows (fun slot h =>
    Flying s.now t.address t.node.outbox.toList slot h ∨ Waking s.now t slot h) s'.agenda
  /-- An alarm that was not planned yet is on the agenda now, under a number of its own. -/
  planned : ∀ deadline, t.node.nextWake? = some deadline → t.wake ≠ some deadline →
    s.agenda.nextNumber < s'.agenda.nextNumber ∧
      ∃ number, (⟨s.now.later deadline, number⟩, .wake t.address deadline) ∈ s'.agenda.entries

/-- A station whose next alarm is planned already stays as it is. -/
theorem planWake_eq_ok (h : s.planWake t = .ok s') :
    t.node.nextWake? = t.wake ∧ s' = s ∨
    t.node.nextWake? ≠ t.wake ∧ t.node.nextWake? = none ∧
      s' = s.putStation { t with wake := none } ∨
    ∃ deadline agenda, t.node.nextWake? ≠ t.wake ∧ t.node.nextWake? = some deadline ∧
      s.agenda.schedule (s.now.later deadline) (.wake t.address deadline) = .ok agenda ∧
      s' = { s.putStation { t with wake := some deadline } with agenda } := by
  unfold planWake at h
  dsimp only at h
  split at h
  · rename_i hsame
    cases h
    exact .inl ⟨hsame, rfl⟩
  rename_i hmoved
  split at h
  · rename_i hnone
    cases h
    exact .inr (.inl ⟨hmoved, hnone, by rw [hnone]⟩)
  · rename_i deadline hsome
    obtain ⟨agenda, hagenda, h⟩ := Checked.bind_eq_ok_iff.1 h
    cases h
    exact .inr (.inr ⟨deadline, agenda, hmoved, hsome, hagenda, by rw [hsome]⟩)

theorem settled_of_settle (h : s.settle t = .ok s') : Settled s t s' := by
  unfold settle at h
  dsimp only [Node.takeTrace, Node.takeOutbox] at h
  obtain ⟨m, hm, h⟩ := Checked.bind_eq_ok_iff.1 h
  have hair := Checked.foldlM_rel (R := Airs t.address t.node.outbox.toList) .refl
    (fun _ _ _ => .trans) (fun c hc b b' hb => airs_transmit hc hb) hm
  obtain ⟨agenda, radioState, sent, lost, hm⟩ := hair.same
  have hgrows := hair.agenda
  subst hm
  clear hair
  have hflying := hgrows.mono (Q := fun slot h =>
    Flying s.now t.address t.node.outbox.toList slot h ∨ Waking s.now t slot h) fun _ _ => .inl
  have hsnapshots : ∃ more, s.logbook.snapshots = s.logbook.snapshots ++ more ∧
      ∀ x ∈ more, x.time = s.now := ⟨[], (List.append_nil _).symm, by simp⟩
  rcases planWake_eq_ok h with ⟨hsame, rfl⟩ | ⟨hmoved, hnone, rfl⟩ |
    ⟨deadline, agenda', hmoved, hsome, hagenda, rfl⟩
  · -- The next alarm is the one that is planned already.
    replace hsame : t.node.nextWake? = t.wake := hsame
    have hrested : t.rested = { t with node := { t.node with trace := ∅, outbox := ∅ } } := by
      rw [Station.rested, hsame]
    refine ⟨?_, rfl, rfl, hsnapshots, hflying, fun d hd hne => ?_⟩
    · rw [hrested]
      rfl
    · exact absurd (hsame.symm.trans hd) hne
  · replace hnone : t.node.nextWake? = none := hnone
    refine ⟨?_, rfl, rfl, hsnapshots, hflying, fun d hd _ => ?_⟩
    · rw [Station.rested, hnone]
      exact Table.insert_insert
    · rw [hnone] at hd
      cases hd
  · replace hsome : t.node.nextWake? = some deadline := hsome
    have hwaking (number : Nat) : Waking s.now t ⟨s.now.later deadline, number⟩
        (.wake t.address deadline) := ⟨deadline, hsome, rfl, rfl⟩
    refine ⟨?_, rfl, rfl, hsnapshots, ?_, fun d hd _ => ?_⟩
    · rw [Station.rested, hsome]
      exact Table.insert_insert
    · exact hflying.trans (Agenda.grows_schedule hagenda fun number => .inr (hwaking number))
    · obtain rfl := Option.some.inj (hsome.symm.trans hd)
      obtain ⟨-, hnumber, -⟩ := Agenda.schedule_eq_ok hagenda
      have hle := hgrows.number_le
      refine ⟨?_, _, Agenda.mem_schedule hagenda⟩
      dsimp only [putStation] at hnumber hle ⊢
      omega

/-! ## The world outside -/

/-- No station was called: at most the link-local address of one of them became usable, or no longer
is. -/
structure Quiet (s s' : Simulation) : Prop where
  stations : s'.stations = s.stations ∨
    ∃ a ready, s'.stations = s.stations.adjust a fun t => t.setReady ready
  now : s'.now = s.now
  liveness : s'.logbook.liveness = s.logbook.liveness
  snapshots : ∃ more, s'.logbook.snapshots = s.logbook.snapshots ++ more ∧
    ∀ x ∈ more, x.time = s.now
  agenda : s.agenda.Grows (fun _ h => ∃ a, h = .act a) s'.agenda

theorem Quiet.refl (s : Simulation) : s.Quiet s :=
  ⟨.inl rfl, rfl, rfl, ⟨[], (List.append_nil _).symm, by simp⟩, .refl _⟩

theorem quiet_takeSnapshot (s : Simulation) : s.Quiet s.takeSnapshot :=
  ⟨.inl rfl, rfl, rfl, ⟨[s.snapshot], rfl, by simp [snapshot]⟩, .refl _⟩

theorem quiet_act (s : Simulation) (a : Action) : s.Quiet (s.act a) := by
  have hnone : ∃ more, s.logbook.snapshots = s.logbook.snapshots ++ more ∧
      ∀ x ∈ more, x.time = s.now := ⟨[], (List.append_nil _).symm, by simp⟩
  cases a with
  | disableLink | enableLink | setLoss => exact ⟨.inl rfl, rfl, rfl, hnone, .refl _⟩
  | setReady a ready => exact ⟨.inr ⟨a, ready, rfl⟩, rfl, rfl, hnone, .refl _⟩
  | snapshot => exact quiet_takeSnapshot s

/-- A regular snapshot changes nothing but the snapshots and the time of the next one. -/
theorem sample_eq (s : Simulation) : ∃ sampling more,
    s.sample = { s with
      sampling
      logbook := { s.logbook with snapshots := s.logbook.snapshots ++ more } } ∧
    ∀ x ∈ more, x.time = s.now := by
  have hnone : s = { s with
      logbook := { s.logbook with snapshots := s.logbook.snapshots ++ [] } } := by
    rw [List.append_nil]
  unfold sample
  split
  · exact ⟨_, [], hnone, by simp⟩
  split
  · exact ⟨_, [s.snapshot], rfl, by simp [snapshot]⟩
  · exact ⟨_, [], hnone, by simp⟩

theorem Settled.sample (h : s.Settled t s') : s.Settled t s'.sample := by
  obtain ⟨sampling, more, heq, hmore⟩ := s'.sample_eq
  obtain ⟨new, hnew, htime⟩ := h.snapshots
  rw [heq]
  refine ⟨h.stations, h.now, h.liveness, ⟨new ++ more, ?_, fun x hx => ?_⟩, h.agenda, h.planned⟩
  · show s'.logbook.snapshots ++ more = _
    rw [hnew, List.append_assoc]
  · rcases List.mem_append.1 hx with hx | hx
    · exact htime x hx
    · exact (hmore x hx).trans h.now

theorem Quiet.sample (h : s.Quiet s') : s.Quiet s'.sample := by
  obtain ⟨sampling, more, heq, hmore⟩ := s'.sample_eq
  obtain ⟨new, hnew, htime⟩ := h.snapshots
  rw [heq]
  refine ⟨h.stations, h.now, h.liveness, ⟨new ++ more, ?_, fun x hx => ?_⟩, h.agenda⟩
  · show s'.logbook.snapshots ++ more = _
    rw [hnew, List.append_assoc]
  · rcases List.mem_append.1 hx with hx | hx
    · exact htime x hx
    · exact (hmore x hx).trans h.now

/-! ## Events -/

/-- What happens is a call into a station, which takes it from `t` to `t'`. -/
inductive Handled (s : Simulation) : Happening → Station → Station → Prop
  /-- A message reaches the station. -/
  | hear {sender receiver : Address} {c : Control} {t t' : Station} {reported : Bool} :
      s.stations.find? receiver = some t → s.hear t sender c = .ok (reported, t') →
        Handled s (.deliver sender receiver c) t t'
  /-- The alarm that the station waits for is due. -/
  | wake {a : Address} {deadline : Instant} {t t' : Station} :
      s.stations.find? a = some t → t.wake = some deadline →
        { t with wake := none }.handleTimer s.now = .ok t' →
          Handled s (.wake a deadline) { t with wake := none } t'

/-- What happens is a call into a station, after which what the station did is collected, or else no
station is called. -/
theorem happen_eq_ok {h : Happening} (hs : s.happen h = .ok s') :
    s.Quiet s' ∧ (∀ a deadline t, h = .wake a deadline → s.stations.find? a = some t →
        t.wake ≠ some deadline) ∨
      ∃ t t', s.Handled h t t' ∧ s.Settled t' s' := by
  cases h with
  | deliver sender receiver c =>
    simp only [happen, deliver] at hs
    split at hs
    · cases hs
      exact .inl ⟨.refl s, fun _ _ _ h => by cases h⟩
    · rename_i t ht
      obtain ⟨⟨reported, t'⟩, hhear, hs⟩ := Checked.bind_eq_ok_iff.1 hs
      -- The counts of messages in the logbook have no part in what is collected.
      have hsettled := settled_of_settle hs
      refine .inr ⟨t, t', .hear ht hhear, hsettled.stations, hsettled.now, ?_, ?_, hsettled.agenda,
        hsettled.planned⟩
      · rw [hsettled.liveness]
        cases reported <;> rfl
      · obtain ⟨more, hmore, htime⟩ := hsettled.snapshots
        refine ⟨more, ?_, htime⟩
        rw [hmore]
        cases reported <;> rfl
  | wake a deadline =>
    simp only [happen, wake] at hs
    split at hs
    · rename_i hnone
      cases hs
      refine .inl ⟨.refl s, fun _ _ t h ht => ?_⟩
      cases h
      rw [hnone] at ht
      cases ht
    rename_i t ht
    split at hs
    · rename_i hwake
      obtain ⟨t', ht', hs⟩ := Checked.bind_eq_ok_iff.1 hs
      exact .inr ⟨_, t', .wake ht hwake ht', settled_of_settle hs⟩
    · rename_i hwake
      cases hs
      refine .inl ⟨.refl s, fun _ _ u h hu => ?_⟩
      cases h
      rw [ht] at hu
      cases hu
      exact hwake
  | act a =>
    cases hs
    exact .inl ⟨quiet_act s a, fun _ _ _ h => by cases h⟩

/-- The simulation just before the event that is taken from the agenda. -/
def taken (s : Simulation) (time : Instant) (rest : Agenda) : Simulation :=
  { s with agenda := rest }.advance time

theorem step_eq_ok {time : Instant} {h : Happening} {rest : Agenda}
    (hs : s.step time h rest = .ok s') :
    (s.taken time rest).Quiet s' ∧
        (∀ a deadline t, h = .wake a deadline → s.stations.find? a = some t →
          t.wake ≠ some deadline) ∨
      ∃ t t', (s.taken time rest).Handled h t t' ∧ (s.taken time rest).Settled t' s' := by
  obtain ⟨m, hm, hs⟩ := Checked.bind_eq_ok_iff.1 hs
  cases hs
  rcases happen_eq_ok hm with ⟨hquiet, hstale⟩ | ⟨t, t', hhandled, hsettled⟩
  · exact .inl ⟨hquiet.sample, hstale⟩
  · exact .inr ⟨t, t', hhandled, hsettled.sample⟩

/-- An event takes nothing from the agenda but itself. -/
theorem budget_step {time : Instant} {h : Happening} {rest : Agenda}
    (hs : s.step time h rest = .ok s') : s'.agenda.budget = rest.budget := by
  rcases step_eq_ok hs with ⟨hquiet, -⟩ | ⟨t, t', -, hsettled⟩
  · exact hquiet.agenda.budget
  · exact hsettled.agenda.budget

/-- The present is moved on to the time of the event. -/
theorem now_step {time : Instant} {h : Happening} {rest : Agenda}
    (hs : s.step time h rest = .ok s') : s'.now = s.now.later time := by
  rcases step_eq_ok hs with ⟨hquiet, -⟩ | ⟨t, t', -, hsettled⟩
  · exact hquiet.now
  · exact hsettled.now

end Simulation

end TrickleNet
