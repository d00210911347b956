import Mathlib
import TrickleNet.Proofs.Run
import TrickleNet.Proofs.Tracking
/-!
# What an event leaves alone

A `Footprint` names what a step may touch: the instances and the slots of alarms that it may change,
the counters it may count on, the messages it may queue, and whether it may set the latch that lets
the node advertise.  `Node.Confined f n m` says that a step from `n` to `m` keeps to `f`, so what
lies outside of `f` is as before.

Every request and every alarm has a footprint that can be read off its name
(`Node.Event.footprint`), and every event of a run keeps to it (`Moment.Valid.confined`).  So that
an event has nothing to do with an alarm, a counter or a kind of message is a matter of its
footprint, and no step has to be taken apart to see it.
-/

namespace TrickleNet

/-- What a step of a node may touch. -/
structure Footprint where
  /-- The instances that it may change, join or leave. -/
  instances : Set InstanceId := ∅
  /-- The alarms whose slots it may change. -/
  alarms : Set Purpose := ∅
  /-- The counters that it may count on. -/
  counters : Set Counter := ∅
  /-- The messages that it may queue. -/
  messages : Set Control := ∅
  /-- Whether it may set the latch that lets the node advertise. -/
  latches : Prop := False

/-- The trickle timer of an instance starts over. -/
@[simp] def Footprint.restart (i : InstanceId) : Footprint where
  instances := {i}
  alarms := {.advertise i}
  counters := {.dioResets}

/-- What a command may touch. -/
@[simp] def Command.footprint : Command → Footprint
  | .resetDio i _ => .restart i
  | .scheduleDao i => { alarms := {.report i} }
  | .dioConsistent i => { instances := {i} }
  | .dioReceived i a _ =>
    { instances := {i}, alarms := {.watch i a, .probe i a}, counters := {.latencySamples} }
  | .setPreferred i _ =>
    { instances := {i}, alarms := {q | ∃ a, q = .watch i a ∨ q = .probe i a} }
  | .solicit i =>
    { instances := {i}, counters := {.probesSent, .controlDropped},
      messages := {c | ∃ a, c = .dis (some a)} }
  | .restartUpkeep => { alarms := {.upkeep} }

/-- What a request may touch.  A call that lets alarms ring touches nothing by itself: the alarms
that ring have footprints of their own. -/
@[simp] def Operation.footprint : Operation → Footprint
  | .join i _ => .restart i
  | .leave i => { instances := {i}, alarms := {q | q.inst? = some i} }
  | .addParent i _ => { instances := {i} }
  | .removeParent i a => { instances := {i}, alarms := {.watch i a, .probe i a} }
  | .scheduleReception i a _ _ _ => { instances := {i}, alarms := {.watch i a} }
  | .handleTimer => {}
  | .command c => c.footprint

/-- What an alarm that rings may touch. -/
@[simp] def Purpose.footprint : Purpose → Footprint
  | .upkeep =>
    { alarms := {.upkeep}, counters := {.disBroadcast, .controlDropped}, messages := {.dis none} }
  | .advertise i =>
    { instances := {i}, alarms := {.advertise i}, counters := {.dioPostponed, .controlDropped},
      messages := {c | ∃ l, c = .dio i l}, latches := True }
  | .report i =>
    { alarms := {.report i}, counters := {.daoPostponed, .daoSent, .controlDropped},
      messages := {c | ∃ a lifetime, c = .dao i a lifetime} }
  | .watch i a =>
    { instances := {i}, alarms := {.watch i a, .probe i a}, counters := {.windowsMissed} }
  | .probe i a =>
    { alarms := {.probe i a}, counters := {.probesSent, .controlDropped},
      messages := {.dis (some a)} }

/-- What an event may touch. -/
@[simp] def Node.Event.footprint : Node.Event → Footprint
  | .request o _ => o.footprint
  | .ring r => r.purpose.footprint
  | .settled _ => {}

namespace Node

variable {ρ : Type} {p : Platform} {f : Footprint} {n m k : Node ρ} {i : InstanceId} {a : Address}
  {d : Dodag} {w : Watch} {q : Purpose} {c : Counter} {msg : Control} {now : Instant} {after : Span}

/-- A step keeps to its footprint.  The queue of commands is nobody's to touch but the run
loop's. -/
structure Confined (f : Footprint) (n m : Node ρ) : Prop where
  dodags : ∀ i ∉ f.instances, m.dodags.find? i = n.dodags.find? i
  slots : ∀ q ∉ f.alarms, m.alarms.slots.find? q = n.alarms.slots.find? q
  counts : ∀ c ∉ f.counters, m.counts.get c = n.counts.get c
  outbox : ∃ new, m.outbox.toList = n.outbox.toList ++ new ∧ ∀ msg ∈ new, msg ∈ f.messages
  latch : ¬f.latches → m.mayAdvertise = n.mayAdvertise
  commands : m.commands = n.commands

namespace Confined

theorem refl (n : Node ρ) : n.Confined f n where
  dodags _ _ := rfl
  slots _ _ := rfl
  counts _ _ := rfl
  outbox := ⟨[], (List.append_nil _).symm, fun _ hmem => absurd hmem List.not_mem_nil⟩
  latch _ := rfl
  commands := rfl

theorem trans (h : n.Confined f m) (h' : m.Confined f k) : n.Confined f k where
  dodags i hi := (h'.dodags i hi).trans (h.dodags i hi)
  slots q hq := (h'.slots q hq).trans (h.slots q hq)
  counts c hc := (h'.counts c hc).trans (h.counts c hc)
  outbox := by
    obtain ⟨new, hnew, hmem⟩ := h.outbox
    obtain ⟨new', hnew', hmem'⟩ := h'.outbox
    refine ⟨new ++ new', by rw [hnew', hnew, List.append_assoc], fun msg hmsg => ?_⟩
    rcases List.mem_append.1 hmsg with hmsg | hmsg
    · exact hmem msg hmsg
    · exact hmem' msg hmsg
  latch hlatch := (h'.latch hlatch).trans (h.latch hlatch)
  commands := h'.commands.trans h.commands

/-- An alarm outside the footprint is due when it was due before. -/
theorem deadline? (h : n.Confined f m) (hq : q ∉ f.alarms) :
    m.alarms.deadline? q = n.alarms.deadline? q := by
  rw [AlarmTable.deadline?, AlarmTable.deadline?, h.slots q hq]

/-! ### Longer steps -/

/-- A step goes on with one that changes nothing that footprints are about. -/
theorem of_eq (h : n.Confined f m) (hdodags : k.dodags = m.dodags) (halarms : k.alarms = m.alarms)
    (hcounts : k.counts = m.counts) (hbox : k.outbox = m.outbox)
    (hlatch : k.mayAdvertise = m.mayAdvertise) (hcommands : k.commands = m.commands) :
    n.Confined f k where
  dodags i hi := by rw [hdodags, h.dodags i hi]
  slots q hq := by rw [halarms, h.slots q hq]
  counts c hc := by rw [hcounts, h.counts c hc]
  outbox := by
    rw [hbox]
    exact h.outbox
  latch hf := by rw [hlatch, h.latch hf]
  commands := hcommands.trans h.commands

theorem emit {e : TraceEvent} (h : n.Confined f m) : n.Confined f (m.emit e) :=
  h.of_eq rfl rfl rfl rfl rfl rfl

theorem putDodag (h : n.Confined f m) (hi : i ∈ f.instances) : n.Confined f (m.putDodag i d) where
  dodags j hj := by
    have hne : j ≠ i := ne_of_mem_of_not_mem hi hj |>.symm
    rw [← h.dodags j hj, Node.putDodag, Table.find?_insert, if_neg hne]
  slots := h.slots
  counts := h.counts
  outbox := h.outbox
  latch := h.latch
  commands := h.commands

theorem putWatch (h : n.Confined f m) (hi : i ∈ f.instances) : n.Confined f (m.putWatch i d a w) :=
  h.putDodag hi

/-- The alarms outside the footprint have to keep their slots. -/
theorem withAlarms {alarms : AlarmTable} (h : n.Confined f m)
    (hslots : ∀ q ∉ f.alarms, alarms.slots.find? q = m.alarms.slots.find? q) :
    n.Confined f { m with alarms } where
  dodags := h.dodags
  slots q hq := (hslots q hq).trans (h.slots q hq)
  counts := h.counts
  outbox := h.outbox
  latch := h.latch
  commands := h.commands

theorem arm (h : n.Confined f m) (hq : q ∈ f.alarms) : n.Confined f (m.arm q now after) := by
  refine h.withAlarms fun r hr => ?_
  have hne : r ≠ q := ne_of_mem_of_not_mem hq hr |>.symm
  rw [AlarmTable.set, Table.find?_insert, if_neg hne]

theorem stop (h : n.Confined f m) (hq : q ∈ f.alarms) :
    n.Confined f { m with alarms := m.alarms.stop q } := by
  refine h.withAlarms fun r hr => ?_
  have hne : r ≠ q := ne_of_mem_of_not_mem hq hr |>.symm
  rw [AlarmTable.stop, Table.find?_adjust, if_neg hne]

theorem rearm (h : n.Confined f m) (hq : q ∈ f.alarms) :
    n.Confined f { m with alarms := m.alarms.rearm q } := by
  refine h.withAlarms fun r hr => ?_
  have hne : r ≠ q := ne_of_mem_of_not_mem hq hr |>.symm
  rw [AlarmTable.rearm, Table.find?_adjust, if_neg hne]

theorem forgetAlarms (h : n.Confined f m) (hwatch : .watch i a ∈ f.alarms)
    (hprobe : .probe i a ∈ f.alarms) : n.Confined f (m.forgetAlarms i a) := by
  refine h.withAlarms fun r hr => ?_
  have hne : r ≠ .watch i a := ne_of_mem_of_not_mem hwatch hr |>.symm
  have hne' : r ≠ .probe i a := ne_of_mem_of_not_mem hprobe hr |>.symm
  simp [AlarmTable.remove, hne, hne']

theorem count (h : n.Confined f m) (hc : c ∈ f.counters) (hk : m.count c = .ok k) :
    n.Confined f k := by
  obtain ⟨-, rfl⟩ := count_eq_ok hk
  refine ⟨h.dodags, h.slots, fun l hl => ?_, h.outbox, h.latch, h.commands⟩
  have hne : l ≠ c := ne_of_mem_of_not_mem hc hl |>.symm
  rw [NodeCounts.get_set, if_neg hne, h.counts l hl]

theorem send (h : n.Confined f m) (hmsg : msg ∈ f.messages) (hdrop : .controlDropped ∈ f.counters)
    (hk : m.send msg = .ok k) : n.Confined f k := by
  rcases send_eq_ok hk with ⟨hroom, rfl⟩ | ⟨-, hk⟩
  · refine ⟨h.dodags, h.slots, h.counts, ?_, h.latch, h.commands⟩
    obtain ⟨new, hnew, hmem⟩ := h.outbox
    refine ⟨new ++ [msg], ?_, fun c hc => ?_⟩
    · rw [Mailbox.toList_offer, if_pos hroom, hnew, List.append_assoc]
    · rcases List.mem_append.1 hc with hc | hc
      · exact hmem c hc
      · rw [List.mem_singleton.1 hc]
        exact hmsg
  · exact h.count hdrop hk

theorem sendProbe (h : n.Confined f m) (hmsg : .dis (some a) ∈ f.messages)
    (hsent : .probesSent ∈ f.counters) (hdrop : .controlDropped ∈ f.counters)
    (hk : m.sendProbe i a = .ok k) : n.Confined f k := by
  obtain ⟨l, hl, hk⟩ := Checked.bind_eq_ok_iff.1 hk
  exact (h.count hsent hl).emit.send hmsg hdrop hk

theorem scheduleReception {delay listen jitter : Span} (h : n.Confined f m) (hi : i ∈ f.instances)
    (hwatch : .watch i a ∈ f.alarms) :
    n.Confined f (m.scheduleReception i a delay listen jitter now).state := by
  unfold Node.scheduleReception
  split
  · exact h
  split
  · exact h
  split
  · exact h
  · exact (h.putWatch hi).emit.arm hwatch

variable [RandomSource ρ]

theorem armProbe (h : n.Confined f m) (hprobe : .probe i a ∈ f.alarms) :
    n.Confined f (armProbe p m i a now) := by
  obtain ⟨source, after, -, heq⟩ := armProbe_eq p m i a now
  have hsource : n.Confined f { m with source } := h.of_eq rfl rfl rfl rfl rfl rfl
  rw [heq]
  exact hsource.arm hprobe

theorem beginInterval (h : n.Confined f m) (hi : i ∈ f.instances) (hq : .advertise i ∈ f.alarms)
    (hk : beginInterval p m i now = .ok k) : n.Confined f k := by
  cases hd : m.dodags.find? i with
  | none =>
    simp only [Node.beginInterval, hd] at hk
    rw [← Except.ok.inj hk]
    exact h
  | some d =>
    obtain ⟨split, d', source, -, rfl⟩ := beginInterval_eq_ok hd hk
    have hsource : n.Confined f { m with source } := h.of_eq rfl rfl rfl rfl rfl rfl
    exact (hsource.putDodag hi).emit.arm hq

theorem resetDio {force : Bool} {out : Outcome (Node ρ)} (h : n.Confined f m) (hi : i ∈ f.instances)
    (hq : .advertise i ∈ f.alarms) (hreset : .dioResets ∈ f.counters)
    (hout : resetDio p m i force now = .ok out) : n.Confined f out.state := by
  rcases resetDio_eq_ok hout with hsame | ⟨d, k, -, hk, hbegin⟩
  · rw [hsame]
    exact h
  · exact ((h.putDodag hi).count hreset hk).emit.beginInterval hi hq hbegin

end Confined

/-! ## Requests -/

theorem confined_leave : n.Confined (Operation.leave i).footprint (n.leave i).state := by
  unfold leave
  split
  · refine ⟨fun j hj => ?_, fun q hq => ?_, fun _ _ => rfl, ?_, fun _ => rfl, rfl⟩
    · have hne : j ≠ i := hj
      simp [Outcome.granted, hne]
    · have hne : q.inst? ≠ some i := hq
      simp only [Outcome.granted, AlarmTable.removeInstance, Table.find?_filter]
      cases n.alarms.slots.find? q <;> simp [hne, Option.filter]
    · exact (Confined.refl (f := (Operation.leave i).footprint) n).outbox
  · exact .refl n

theorem confined_addParent :
    n.Confined (Operation.addParent i a).footprint (addParent p n i a).state := by
  unfold addParent
  split
  · exact .refl n
  split
  · exact .refl n
  split
  · exact .refl n
  · exact (Confined.refl n).putDodag rfl

theorem confined_removeParent :
    n.Confined (Operation.removeParent i a).footprint (n.removeParent i a).state := by
  unfold removeParent
  split
  · exact .refl n
  split
  · exact ((Confined.refl n).putDodag rfl).forgetAlarms (.inl rfl) (.inr rfl)
  · exact .refl n

theorem confined_setPreferred {b : Option Address} :
    n.Confined (Command.setPreferred i b).footprint (n.setPreferred i b).state := by
  unfold setPreferred
  split
  · exact .refl n
  split
  · exact .refl n
  split
  · exact .refl n
  split
  · exact (Confined.refl n).putDodag rfl
  · rename_i old _
    exact ((Confined.refl n).putDodag rfl).forgetAlarms ⟨old, .inl rfl⟩ ⟨old, .inr rfl⟩

theorem confined_dioConsistent :
    n.Confined (Command.dioConsistent i).footprint (n.dioConsistent i).state := by
  unfold dioConsistent
  split
  · exact .refl n
  · exact (Confined.refl n).putDodag rfl

theorem confined_dioReceived {l : Lookahead} {out : Outcome (Node ρ)}
    (h : dioReceived p n i a l now = .ok out) :
    n.Confined (Command.dioReceived i a l).footprint out.state := by
  by_cases hp : (n.track i a).preferred ∧ (n.track i a).watch.isSome
  swap
  · rw [dioReceived_of_not_preferred hp h]
    exact .refl n
  obtain ⟨w, hw⟩ := Option.isSome_iff_exists.1 hp.2
  obtain ⟨d, hd, hpref, hfind⟩ := dodag_of_track hp.1 hw
  have hput (w' : Watch) :
      n.Confined (Command.dioReceived i a l).footprint (n.putWatch i d a w') :=
    (Confined.refl n).putWatch rfl
  rw [dioReceived_eq hd hpref hfind] at h
  cases hr : w.reception l.listen (l.jitter + p.receptionSkew) now with
  | first =>
    simp only [hr] at h
    rw [← Except.ok.inj h, firstHeard]
    refine Confined.scheduleReception ?_ rfl (.inl rfl)
    have hstop := (hput { w with stage := .awaitingWindow }).stop (q := .probe i a) (.inr rfl)
    split
    · exact hstop.emit
    · exact hstop
  | answer =>
    simp only [hr] at h
    rw [← Except.ok.inj h]
    exact (hput _).emit.arm (.inl rfl)
  | late =>
    simp only [hr] at h
    obtain ⟨latency, -, h⟩ := Checked.bind_eq_ok_iff.1 h
    obtain ⟨k, hk, h⟩ := Checked.bind_eq_ok_iff.1 h
    rw [← Except.ok.inj h]
    have hcount := ((hput _).count rfl hk).emit (e := .latencyMeasured i latency)
    refine Confined.scheduleReception ?_ rfl (.inl rfl)
    exact hcount.of_eq rfl rfl rfl rfl rfl rfl
  | repeated =>
    simp only [hr] at h
    rw [← Except.ok.inj h]
    exact (Confined.refl n).scheduleReception rfl (.inl rfl)
  | early | overlooked =>
    simp only [hr] at h
    rw [← Except.ok.inj h]
    exact (Confined.refl n).emit

theorem confined_solicit {out : Outcome (Node ρ)} (h : n.solicit i = .ok out) :
    n.Confined (Command.solicit i).footprint out.state := by
  unfold solicit at h
  split at h
  · rw [← Except.ok.inj h]
    exact .refl n
  split at h
  · rw [← Except.ok.inj h]
    exact .refl n
  · obtain ⟨k, hk, h⟩ := Checked.bind_eq_ok_iff.1 h
    rw [← Except.ok.inj h]
    exact ((Confined.refl n).putDodag rfl).sendProbe ⟨_, rfl⟩ (.inl rfl) (.inr rfl) hk

theorem confined_restartUpkeep :
    n.Confined Command.restartUpkeep.footprint (restartUpkeep p n now) := by
  apply Confined.arm
  · exact (Confined.refl n).of_eq rfl rfl rfl rfl rfl rfl
  · rfl

section Draws

variable [RandomSource ρ]

theorem confined_join {params : TrickleParams} {out : Outcome (Node ρ)}
    (h : join p n i params now = .ok out) :
    n.Confined (Operation.join i params).footprint out.state := by
  unfold join at h
  split at h
  · rw [← Except.ok.inj h]
    exact .refl n
  split at h
  · rw [← Except.ok.inj h]
    exact .refl n
  split at h
  · rw [← Except.ok.inj h]
    exact .refl n
  · exact ((Confined.refl n).putDodag rfl).resetDio rfl rfl rfl h

theorem confined_scheduleDao {out : Outcome (Node ρ)} (h : scheduleDao p n i now = .ok out) :
    n.Confined (Command.scheduleDao i).footprint out.state := by
  unfold scheduleDao at h
  split at h
  · rw [← Except.ok.inj h]
    exact .refl n
  split at h
  · rw [← Except.ok.inj h]
    exact (Confined.refl n).emit
  · obtain ⟨ticks, -, h⟩ := Checked.bind_eq_ok_iff.1 h
    rw [← Except.ok.inj h]
    apply Confined.emit
    apply Confined.arm
    · exact (Confined.refl n).of_eq rfl rfl rfl rfl rfl rfl
    · rfl

theorem confined_perform {o : Operation} {out : Outcome (Node ρ)} (ho : o ≠ .handleTimer)
    (h : n.perform p o now = .ok out) : n.Confined o.footprint out.state := by
  cases o with
  | join i params => exact confined_join h
  | leave i =>
    rw [← Except.ok.inj h]
    exact confined_leave
  | addParent i a =>
    rw [← Except.ok.inj h]
    exact confined_addParent
  | removeParent i a =>
    rw [← Except.ok.inj h]
    exact confined_removeParent
  | scheduleReception i a delay listen jitter =>
    rw [← Except.ok.inj h]
    exact (Confined.refl n).scheduleReception rfl rfl
  | handleTimer => exact absurd rfl ho
  | command c =>
    cases c with
    | resetDio i force => exact (Confined.refl n).resetDio rfl rfl rfl h
    | scheduleDao i => exact confined_scheduleDao h
    | dioConsistent i =>
      rw [← Except.ok.inj h]
      exact confined_dioConsistent
    | dioReceived i a l => exact confined_dioReceived h
    | setPreferred i b =>
      rw [← Except.ok.inj h]
      exact confined_setPreferred
    | solicit i => exact confined_solicit h
    | restartUpkeep =>
      rw [← Except.ok.inj h]
      exact confined_restartUpkeep

end Draws

/-! ## Alarms -/

theorem confined_upkeepRings (h : upkeepRings p n = .ok m) :
    n.Confined Purpose.upkeep.footprint m := by
  obtain ⟨k, l, hk, hl, rfl⟩ := upkeepRings_eq_ok h
  obtain ⟨upkeep, -, -, rfl⟩ := ageRoutes_eq_ok hk
  refine Confined.rearm ?_ rfl
  rcases solicitDetached_eq_ok hl with ⟨-, k, hk, hsend⟩ | ⟨-, rfl⟩
  · have hticked : n.Confined Purpose.upkeep.footprint { n with upkeep, sinceSolicit := 0 } :=
      (Confined.refl n).of_eq rfl rfl rfl rfl rfl rfl
    exact (hticked.count (.inl rfl) hk).emit.send rfl (.inr rfl) hsend
  · exact (Confined.refl n).of_eq rfl rfl rfl rfl rfl rfl

/-- A report that rings counts as postponed only while the address is not usable. -/
theorem Confined.reportRings (h : n.Confined f m) (hq : .report i ∈ f.alarms)
    (hmsg : ∀ a lifetime, .dao i a lifetime ∈ f.messages) (hsent : .daoSent ∈ f.counters)
    (hdrop : .controlDropped ∈ f.counters)
    (hpostponed : m.mayAdvertise = false → m.addressReady = false → .daoPostponed ∈ f.counters)
    (hk : reportRings p m i now = .ok k) : n.Confined f k := by
  rcases reportRings_eq_ok hk with ⟨hmay, hready, l, hl, rfl⟩ | ⟨-, ⟨-, rfl⟩ | ⟨d, -, hmade⟩⟩
  · exact (h.count (hpostponed hmay hready) hl).emit.arm hq
  · exact h
  · rcases hmade with ⟨a, l, l', -, hl, hl', rfl⟩ | ⟨-, rfl⟩
    · exact ((h.count hsent hl).emit.send (hmsg _ _) hdrop hl').stop hq
    · exact h.emit.stop hq

theorem Confined.takeDecision (h : n.Confined f m) (hi : i ∈ f.instances)
    (hq : .advertise i ∈ f.alarms) (hmsg : ∀ l, .dio i l ∈ f.messages)
    (hdrop : .controlDropped ∈ f.counters) (hk : m.takeDecision i d now = .ok k) :
    n.Confined f k := by
  rcases takeDecision_eq_ok hk with ⟨-, -, l, hl, rfl⟩ | ⟨-, -, rfl⟩
  · exact ((h.putDodag hi).emit.send (hmsg _) hdrop hl).arm hq
  · exact (h.putDodag hi).emit.arm hq

variable [RandomSource ρ]

/-- A trickle timer that rings counts as postponed only as long as the node may not advertise. -/
theorem Confined.advertiseRings (h : n.Confined f m) (hi : i ∈ f.instances)
    (hq : .advertise i ∈ f.alarms) (hmsg : ∀ l, .dio i l ∈ f.messages)
    (hdrop : .controlDropped ∈ f.counters) (hlatches : f.latches)
    (hpostponed : m.latchReady.mayAdvertise = false → .dioPostponed ∈ f.counters)
    (hk : advertiseRings p m i now = .ok k) : n.Confined f k := by
  have hlatched : n.Confined f m.latchReady :=
    ⟨h.dodags, h.slots, h.counts, h.outbox, fun hnot => absurd hlatches hnot, h.commands⟩
  rcases advertiseRings_eq_ok hk with ⟨hmay, l, hl, rfl⟩ | ⟨-, ⟨-, rfl⟩ | ⟨d, -, hturn⟩⟩
  · exact (hlatched.count (hpostponed hmay) hl).emit.arm hq
  · exact hlatched
  · rcases hturn with ⟨-, hk⟩ | ⟨-, hk⟩
    · exact hlatched.takeDecision hi hq hmsg hdrop hk
    · exact (hlatched.putDodag hi).beginInterval hi hq hk

theorem confined_watchRings (h : watchRings p n i a now = .ok m) :
    n.Confined (Purpose.watch i a).footprint m := by
  have hn : n.Confined (Purpose.watch i a).footprint n := .refl n
  rcases watchRings_eq_ok h with ⟨rfl, -⟩ | ⟨d, w, k, -, -, -, hk, rfl⟩
  · exact hn
  · exact ((hn.putWatch rfl).count rfl hk).emit.armProbe (.inr rfl)

theorem confined_probeRings (h : probeRings p n i a now = .ok m) :
    n.Confined (Purpose.probe i a).footprint m := by
  have hn : n.Confined (Purpose.probe i a).footprint n := .refl n
  rcases probeRings_eq_ok h with ⟨rfl, -⟩ | ⟨-, -, k, hk, rfl⟩
  · exact hn
  · exact (hn.sendProbe rfl (.inl rfl) (.inr rfl) hk).armProbe rfl

theorem confined_handleRing {r : Ring} (h : handleRing p n r = .ok m) :
    n.Confined r.purpose.footprint m := by
  obtain ⟨q, due⟩ := r
  cases q with
  | upkeep => exact confined_upkeepRings h
  | advertise i =>
    exact (Confined.refl n).advertiseRings rfl rfl (fun l => ⟨l, rfl⟩) (.inr rfl) trivial
      (fun _ => .inl rfl) h
  | report i =>
    exact (Confined.refl n).reportRings rfl (fun a lifetime => ⟨a, lifetime, rfl⟩) (.inr (.inl rfl))
      (.inr (.inr rfl)) (fun _ _ => .inl rfl) h
  | watch i a => exact confined_watchRings h
  | probe i a => exact confined_probeRings h

/-- An alarm may touch its own slot. -/
theorem mem_footprint (q : Purpose) : q ∈ q.footprint.alarms := by
  cases q with
  | upkeep | advertise | report | probe => rfl
  | watch => exact .inl rfl

/-! ## Every event of a run -/

variable {x : Moment ρ}

/-- A request is carried out. -/
theorem Moment.Valid.performed {o : Operation} (h : x.Valid p) (hevent : x.event = .request o now) :
    o ≠ .handleTimer ∧ ∃ out, x.before.perform p o now = .ok out ∧ x.after = out.state := by
  cases h with
  | ring | settled => cases hevent
  | request ho hout =>
    obtain ⟨rfl, rfl⟩ := Event.request.inj hevent
    exact ⟨ho, _, hout, rfl⟩

/-- An alarm rings at its deadline, and its handler finds it silent. -/
theorem Moment.Valid.rang {r : Ring} (h : x.Valid p) (hevent : x.event = .ring r) :
    x.before.alarms.deadline? r.purpose = some r.deadline ∧
      handleRing p { x.before with alarms := x.before.alarms.stop r.purpose } r = .ok x.after := by
  cases h with
  | request | settled => cases hevent
  | ring hring hm =>
    obtain rfl := Event.ring.inj hevent
    obtain ⟨hdue, -, rfl, -⟩ := AlarmTable.ring?_eq_some hring
    exact ⟨hdue, hm⟩

/-- Every event of a run keeps to its footprint. -/
theorem Moment.Valid.confined (h : x.Valid p) : x.before.Confined x.event.footprint x.after := by
  cases h with
  | request ho hout => exact confined_perform ho hout
  | @ring n m now r alarms hring hm =>
    obtain ⟨-, -, rfl, -⟩ := AlarmTable.ring?_eq_some hring
    exact ((Confined.refl n).stop (mem_footprint r.purpose)).trans (confined_handleRing hm)
  | settled => exact .refl _

end Node

end TrickleNet
