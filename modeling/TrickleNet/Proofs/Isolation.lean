import Mathlib
import TrickleNet.Proofs.Footprint
/-!
# Instances keep to themselves

Every request but those about the node as a whole is addressed to one instance (`Operation.inst?`),
and so is every alarm but the maintenance ticker (`Purpose.inst?`).  `Node.SameAbout j n m` says
that between `n` and `m` nothing has changed about the instance `j`: what the node keeps of it, and
the slots of its alarms.

A footprint reaches no further than the instance that its event is addressed to
(`Node.Event.footprint_inst`), although alarms of all instances share one table and two instances
may have a parent in common.  So an event leaves the other instances and the ticker alone, and in a
run nothing changes about an instance as long as no event is addressed to it
(`instances_do_not_interfere`).
-/

namespace TrickleNet

/-- The instance that the command is addressed to, if any. -/
def Command.inst? : Command → Option InstanceId
  | .resetDio i _ | .scheduleDao i | .dioConsistent i | .dioReceived i _ _ | .setPreferred i _
  | .solicit i => some i
  | .restartUpkeep => none

/-- The instance that the request is addressed to, if any. -/
def Operation.inst? : Operation → Option InstanceId
  | .join i _ | .leave i | .addParent i _ | .removeParent i _ | .scheduleReception i _ _ _ _ =>
    some i
  | .handleTimer => none
  | .command c => c.inst?

namespace Node

/-- The instance that the event is addressed to, if any. -/
def Event.inst? : Event → Option InstanceId
  | .request o _ => o.inst?
  | .ring r => r.purpose.inst?
  | .settled _ => none

theorem Command.footprint_inst (c : Command) :
    (∀ i ∈ c.footprint.instances, c.inst? = some i) ∧
      ∀ q ∈ c.footprint.alarms, q.inst? = c.inst? := by
  cases c with
  | dioReceived i a l =>
    refine ⟨fun j hj => congrArg some hj.symm, ?_⟩
    rintro q (rfl | rfl) <;> rfl
  | setPreferred i b =>
    refine ⟨fun j hj => congrArg some hj.symm, ?_⟩
    rintro q ⟨a, rfl | rfl⟩ <;> rfl
  | resetDio i | dioConsistent i | solicit i | scheduleDao i | restartUpkeep =>
    simp [Command.inst?, Purpose.inst?]

theorem Operation.footprint_inst (o : Operation) :
    (∀ i ∈ o.footprint.instances, o.inst? = some i) ∧
      ∀ q ∈ o.footprint.alarms, q.inst? = o.inst? := by
  cases o with
  | removeParent i a =>
    refine ⟨fun j hj => congrArg some hj.symm, ?_⟩
    rintro q (rfl | rfl) <;> rfl
  | leave i => exact ⟨fun j hj => congrArg some hj.symm, fun q hq => hq⟩
  | join i | addParent i | scheduleReception i | handleTimer =>
    simp [Operation.inst?, Purpose.inst?]
  | command c => exact Command.footprint_inst c

theorem Purpose.footprint_inst (q : Purpose) :
    (∀ i ∈ q.footprint.instances, q.inst? = some i) ∧
      ∀ r ∈ q.footprint.alarms, r.inst? = q.inst? := by
  cases q with
  | watch i a =>
    refine ⟨fun j hj => congrArg some hj.symm, ?_⟩
    rintro r (rfl | rfl) <;> rfl
  | upkeep | advertise i | report i | probe i a => simp [Purpose.inst?]

/-- An event touches the instance that it is addressed to and alarms of that instance; one that is
addressed to none touches at most the ticker. -/
theorem Event.footprint_inst (e : Event) :
    (∀ i ∈ e.footprint.instances, e.inst? = some i) ∧
      ∀ q ∈ e.footprint.alarms, q.inst? = e.inst? := by
  cases e with
  | request o now => exact Operation.footprint_inst o
  | ring r => exact Purpose.footprint_inst r.purpose
  | settled now => simp

variable {ρ : Type} {p : Platform} {n m k : Node ρ} {e : Event} {j : InstanceId} {q : Purpose}
  {ms : List (Moment ρ)}

/-- Nothing has changed about the instance. -/
structure SameAbout (j : InstanceId) (n m : Node ρ) : Prop where
  dodag : m.dodags.find? j = n.dodags.find? j
  /-- The alarms of the instance have the deadlines and the arming numbers they had, and are silent
  if they were. -/
  slots : ∀ q, q.inst? = some j → m.alarms.slots.find? q = n.alarms.slots.find? q

/-- The maintenance ticker was neither armed again nor stopped. -/
def SameTicker (n m : Node ρ) : Prop := m.alarms.slots.find? .upkeep = n.alarms.slots.find? .upkeep

theorem SameAbout.refl (j : InstanceId) (n : Node ρ) : n.SameAbout j n := ⟨rfl, fun _ _ => rfl⟩

theorem SameAbout.trans (h : n.SameAbout j m) (h' : m.SameAbout j k) : n.SameAbout j k where
  dodag := h'.dodag.trans h.dodag
  slots q hq := (h'.slots q hq).trans (h.slots q hq)

/-- Alarms of the instance ring when they would have. -/
theorem SameAbout.deadline? (h : n.SameAbout j m) (hq : q.inst? = some j) :
    m.alarms.deadline? q = n.alarms.deadline? q := by
  rw [AlarmTable.deadline?, AlarmTable.deadline?, h.slots q hq]

theorem Confined.sameAbout (h : n.Confined e.footprint m) (hj : e.inst? ≠ some j) :
    n.SameAbout j m where
  dodag := h.dodags j fun hmem => hj (e.footprint_inst.1 j hmem)
  slots q hq := h.slots q fun hmem => hj ((e.footprint_inst.2 q hmem).symm.trans hq)

theorem Confined.sameTicker (h : n.Confined e.footprint m) (he : e.inst? ≠ none) : n.SameTicker m :=
  h.slots .upkeep fun hmem => he (e.footprint_inst.2 .upkeep hmem).symm

variable [RandomSource ρ]

/-- Nothing changes about an instance in a run whose events are not addressed to it. -/
theorem Trail.sameAbout (h : Trail p n ms k) (hj : ∀ x ∈ ms, x.event.inst? ≠ some j) :
    n.SameAbout j k := by
  refine h.invariant (I := n.SameAbout j) (fun _ _ hsame hn => hn.trans ?_)
    (fun x hx hvalid hn => hn.trans (hvalid.confined.sameAbout (hj x hx))) (.refl j n)
  exact ⟨by rw [hsame.dodags], fun q _ => by rw [hsame.alarms]⟩

/-- Requests and alarms of an instance `i` leave another instance `j` as it was: its trickle timer
with the split of the next interval, its parents with their records, the preferred one, its
counters, and every slot of an alarm of `j` with its deadline, its arming number and whether it is
armed.  Nor do they arm or stop the maintenance ticker.  That goes for a request that is granted or
refused, for a command, and for an alarm that falls silent and is handled, and so it goes for all
events of a run that are not addressed to `j`, those of the ticker among them. -/
theorem instances_do_not_interfere (p : Platform) (n : Node ρ) (i j : InstanceId) (hij : j ≠ i) :
    (∀ o now out, o.inst? = some i → n.perform p o now = .ok out →
      n.SameAbout j out.state ∧ n.SameTicker out.state) ∧
    (∀ now r alarms m, r.purpose.inst? = some i → n.alarms.ring? now = some (r, alarms) →
      handleRing p { n with alarms } r = .ok m → n.SameAbout j m ∧ n.SameTicker m) ∧
    ∀ ms k, Trail p n ms k → (∀ x ∈ ms, x.event.inst? ≠ some j) → n.SameAbout j k := by
  have hother (e : Event) (he : e.inst? = some i) : e.inst? ≠ some j ∧ e.inst? ≠ none := by
    rw [he]
    exact ⟨fun h => hij (Option.some.inj h).symm, Option.some_ne_none i⟩
  refine ⟨fun o now out ho hout => ?_, fun now r alarms m hr hring hm => ?_,
    fun ms k htrail hms => ?_⟩
  · obtain ⟨hj, hticker⟩ := hother (.request o now) ho
    have hne : o ≠ .handleTimer := by
      rintro rfl
      cases ho
    have hconfined := (Moment.Valid.request hne hout).confined
    exact ⟨hconfined.sameAbout hj, hconfined.sameTicker hticker⟩
  · obtain ⟨hj, hticker⟩ := hother (.ring r) hr
    have hconfined := (Moment.Valid.ring hring hm).confined
    exact ⟨hconfined.sameAbout hj, hconfined.sameTicker hticker⟩
  · exact htrail.sameAbout hms

/-- Requests to a node that belongs to two instances, prefers the same neighbour in both, and has
heard it in both. -/
def sharedParent : List (Operation × Instant) :=
  [(.command .restartUpkeep, .zero), (.join 1 { minExponent := 30 }, .zero),
    (.join 2 { minExponent := 30 }, .zero),
    (.addParent 1 (.linkLocal 3), .zero), (.addParent 2 (.linkLocal 3), .zero),
    (.command (.setPreferred 1 (some (.linkLocal 3))), .zero),
    (.command (.setPreferred 2 (some (.linkLocal 3))), .zero),
    (.command (.dioReceived 1 (.linkLocal 3) {}), .zero),
    (.command (.dioReceived 2 (.linkLocal 3) {}), .ofTicks 50)]

/-- To drop the shared parent in one instance cancels its alarm there, and so does to leave that
instance; the alarm of the other instance is due as before, also when the one that is due first has
rung. -/
theorem shared_parent_does_not_interfere :
    ∃ ms n, record .millis sharedParent (.new (Generator.fixed 0) .zero true) = .ok (ms, n) ∧
      (2 : InstanceId) ≠ 1 ∧
      n.alarms.deadline? (.watch 1 (.linkLocal 3)) = some (.ofTicks 400) ∧
      (∃ dropped, n.perform .millis (.removeParent 1 (.linkLocal 3)) .zero = .ok dropped ∧
        dropped.state.alarms.deadline? (.watch 1 (.linkLocal 3)) = none ∧
        dropped.state.alarms.deadline? (.watch 2 (.linkLocal 3)) = some (.ofTicks 450) ∧
        n.SameTicker dropped.state) ∧
      (∃ left, n.perform .millis (.leave 1) .zero = .ok left ∧
        left.state.alarms.deadline? (.watch 1 (.linkLocal 3)) = none ∧
        left.state.alarms.deadline? (.watch 2 (.linkLocal 3)) = some (.ofTicks 450)) ∧
      ∃ r alarms m, n.alarms.ring? (.ofTicks 400) = some (r, alarms) ∧
        r.purpose = .watch 1 (.linkLocal 3) ∧ handleRing .millis { n with alarms } r = .ok m ∧
        m.alarms.deadline? (.watch 2 (.linkLocal 3)) = some (.ofTicks 450) ∧ n.SameTicker m := by
  obtain ⟨ms, n, dropped, left, r, alarms, m, hn, hwatch, hwatch', hdropped, hgone, hleft,
      hgone', hring, hpurpose, hm⟩ :
      ∃ ms n dropped left r alarms m,
        record .millis sharedParent (.new (Generator.fixed 0) .zero true) = .ok (ms, n) ∧
        n.alarms.deadline? (.watch 1 (.linkLocal 3)) = some (.ofTicks 400) ∧
        n.alarms.deadline? (.watch 2 (.linkLocal 3)) = some (.ofTicks 450) ∧
        n.perform .millis (.removeParent 1 (.linkLocal 3)) .zero = .ok dropped ∧
        dropped.state.alarms.deadline? (.watch 1 (.linkLocal 3)) = none ∧
        n.perform .millis (.leave 1) .zero = .ok left ∧
        left.state.alarms.deadline? (.watch 1 (.linkLocal 3)) = none ∧
        n.alarms.ring? (.ofTicks 400) = some (r, alarms) ∧ r.purpose = .watch 1 (.linkLocal 3) ∧
        handleRing .millis { n with alarms } r = .ok m :=
    ⟨_, _, _, _, _, _, _, rfl, rfl, rfl, rfl, rfl, rfl, rfl, rfl, rfl, rfl⟩
  have hne : (2 : InstanceId) ≠ 1 := by decide
  obtain ⟨hrequest, halarm, -⟩ := instances_do_not_interfere .millis n 1 2 hne
  obtain ⟨hsame, hticker⟩ := hrequest _ _ _ rfl hdropped
  obtain ⟨hsame', -⟩ := hrequest _ _ _ rfl hleft
  obtain ⟨hsame'', hticker''⟩ := halarm _ _ _ _ (by rw [hpurpose]; rfl) hring hm
  refine ⟨ms, n, hn, hne, hwatch, ⟨dropped, hdropped, hgone, ?_, hticker⟩,
    ⟨left, hleft, hgone', ?_⟩, r, alarms, m, hring, hpurpose, hm, ?_, hticker''⟩
  · exact (hsame.deadline? rfl).trans hwatch'
  · exact (hsame'.deadline? rfl).trans hwatch'
  · exact (hsame''.deadline? rfl).trans hwatch'

end Node

end TrickleNet
