import Mathlib
import TrickleNet.Proofs.Refusals
import TrickleNet.Proofs.Settling
/-!
# Arithmetic that stays in range

Sums and differences of 64-bit times are either clamped or checked, and those that are checked stay
in range whatever times arrive.  The draw behind a split never exceeds its interval, a sample of
lateness is taken only after the advertisement was expected, the delay of a report fits a word if
the latency of the platform is at most half the range, and the exponent of an interval stays a byte.

So only the statistics can overflow.  `Node.HasRoom` says that none of them is at its maximum, and
then every request other than `Operation.handleTimer` has a result (`Node.perform_returns`).  A call
that lets alarms ring may count a statistic more than once; `Node.handleRing_returns` is its step,
and `Node.arithmetic_stays_in_range` the whole.
-/

namespace TrickleNet

/-- The computation has a result. -/
def Checked.Returns {α : Type} (x : Checked α) : Prop := ∃ a, x = .ok a

namespace Checked.Returns

variable {α β : Type} {x : Checked α}

theorem ok (a : α) : Returns (.ok a) := ⟨a, rfl⟩

/-- A chain of computations has a result when each of them does. -/
theorem bind {g : α → Checked β} (h : x.Returns) (hg : ∀ a, x = .ok a → (g a).Returns) :
    (x >>= g).Returns := by
  obtain ⟨a, ha⟩ := h
  obtain ⟨b, hb⟩ := hg a ha
  exact ⟨b, Checked.bind_eq_ok_iff.2 ⟨a, ha, hb⟩⟩

theorem addChecked {limit v w : Nat} (h : v + w < limit) : Returns (addChecked limit v w) :=
  ⟨v + w, addChecked_eq_ok_iff.2 ⟨rfl, h⟩⟩

/-- The difference of two instants in their order. -/
theorem since? {t u : Instant} (h : u < t) : (t.since? u).Returns := by
  refine ⟨t - u, Instant.since?_eq_ok_iff.2 ⟨?_, Instant.ticks_sub⟩⟩
  exact Nat.le_of_lt h

end Checked.Returns

/-- No statistic of the instance is at its maximum. -/
structure AdvertCounts.HasRoom (c : AdvertCounts) : Prop where
  intervals : c.intervals + 1 < wordLimit32
  sent : c.sent + 1 < wordLimit32
  received : c.received + 1 < wordLimit32
  suppressed : c.suppressed + 1 < wordLimit32

instance (c : AdvertCounts) : Decidable c.HasRoom :=
  decidable_of_iff (c.intervals + 1 < wordLimit32 ∧ c.sent + 1 < wordLimit32 ∧
      c.received + 1 < wordLimit32 ∧ c.suppressed + 1 < wordLimit32)
    ⟨fun h => ⟨h.1, h.2.1, h.2.2.1, h.2.2.2⟩, fun h => ⟨h.1, h.2, h.3, h.4⟩⟩

section Draws

variable {ρ : Type} [RandomSource ρ] {p : Platform} {d : Dodag} {source : ρ}

/-- No draw makes the listen phase longer than the interval, whatever its exponent is. -/
theorem Split.draw_returns (p : Platform) (exponent : Nat) (source : ρ) :
    (Split.draw p exponent source).Returns := by
  obtain ⟨s, source', hs, -⟩ := Split.draw_divides p exponent source
  exact ⟨_, hs⟩

/-- An interval begins if it can be counted and what was heard can be added up. -/
theorem Dodag.begin_returns (hd : d.counts.HasRoom)
    (hheard : d.counts.received + d.heard < wordLimit32) : (d.begin p source).Returns := by
  unfold begin
  have hcurrent : (d.currentSplit p source).Returns := by
    obtain ⟨split, middle, hs⟩ := d.currentSplit_eq_ok p source
    exact ⟨_, hs⟩
  refine hcurrent.bind fun r _ => ?_
  refine .bind (.addChecked hd.intervals) fun intervals _ => ?_
  refine .bind (.addChecked hheard) fun received _ => ?_
  exact (Split.draw_returns p d.nextExponent r.2).bind fun _ _ => .ok _

end Draws

namespace Node

variable {ρ : Type} {n m k : Node ρ} {p : Platform} {i : InstanceId} {a : Address} {d : Dodag}
  {c c' : Counter} {now : Instant}

/-- The counter can count one more. -/
def Spare (n : Node ρ) (c : Counter) : Prop := n.counts.get c + 1 < wordLimit32

instance : Decidable (n.Spare c) := inferInstanceAs (Decidable (n.counts.get c + 1 < wordLimit32))

/-- No statistic of the node is at its maximum. -/
structure HasRoom (n : Node ρ) : Prop where
  counts : ∀ c, n.Spare c
  dodags : ∀ i d, n.dodags.find? i = some d → d.counts.HasRoom
  purges : n.upkeep.purges + 1 < wordLimit32

/-- What each instance heard in the current interval can be added up.  An interval adds up to 255 at
once, so room for one more is not enough. -/
def HeardFits (n : Node ρ) : Prop :=
  ∀ i d, n.dodags.find? i = some d → d.counts.received + d.heard < wordLimit32

/-! ## Counting and sending -/

theorem count_returns (h : n.Spare c) : (n.count c).Returns :=
  .bind (.bind (.addChecked h) fun _ _ => .ok _) fun _ _ => .ok _

/-- A count leaves the other counters alone. -/
theorem Spare.count (h : n.Spare c) (hm : n.count c' = .ok m) (hne : c ≠ c') : m.Spare c := by
  obtain ⟨-, rfl⟩ := count_eq_ok hm
  rw [Spare, NodeCounts.get_set, if_neg hne]
  exact h

theorem send_returns {msg : Control} (h : n.Spare .controlDropped) : (n.send msg).Returns := by
  unfold send
  split
  · exact .ok _
  · exact count_returns h

/-- What is counted and then sent may be lost, which another counter counts. -/
theorem count_send_returns {e : TraceEvent} {msg : Control} (hc : n.Spare c)
    (hdropped : n.Spare .controlDropped) (hne : Counter.controlDropped ≠ c) :
    (n.count c >>= fun k => (k.emit e).send msg).Returns := by
  refine (count_returns hc).bind fun k hk => ?_
  have hleft : k.Spare .controlDropped := hdropped.count hk hne
  exact send_returns (n := k.emit e) hleft

theorem sendProbe_returns (hn : n.HasRoom) : (n.sendProbe i a).Returns :=
  count_send_returns (hn.counts .probesSent) (hn.counts .controlDropped) (by decide)

/-! ## The alarms -/

theorem reportRings_returns (hn : n.HasRoom) : (reportRings p n i now).Returns := by
  unfold reportRings
  split
  · exact (count_returns (hn.counts .daoPostponed)).bind fun _ _ => .ok _
  split
  · exact .ok n
  rename_i d _
  cases d.preferred with
  | none => exact .ok _
  | some a =>
    refine (count_returns (hn.counts .daoSent)).bind fun k hk => ?_
    have hdropped : k.Spare .controlDropped := (hn.counts .controlDropped).count hk (by decide)
    exact (send_returns (n := k.emit _) hdropped).bind fun _ _ => .ok _

theorem upkeepRings_returns (hn : n.HasRoom) : (upkeepRings p n).Returns := by
  have haged : n.ageRoutes.Returns :=
    .bind (.bind (.addChecked hn.purges) fun _ _ => .ok _) fun _ _ => .ok _
  refine haged.bind fun k hk => ?_
  obtain ⟨upkeep, -, -, rfl⟩ := ageRoutes_eq_ok hk
  refine .bind ?_ fun _ _ => .ok _
  unfold solicitDetached
  split
  · exact count_send_returns (hn.counts .disBroadcast) (hn.counts .controlDropped) (by decide)
  · exact .ok _

theorem takeDecision_returns (hn : n.HasRoom) (hd : d.counts.HasRoom) :
    (n.takeDecision i d now).Returns := by
  unfold takeDecision
  split
  · refine .bind (.addChecked hd.sent) fun sent _ => ?_
    exact .bind (send_returns (hn.counts .controlDropped)) fun _ _ => .ok _
  · exact .bind (.addChecked hd.suppressed) fun _ _ => .ok _

variable [RandomSource ρ]

theorem watchRings_returns (hn : n.HasRoom) : (watchRings p n i a now).Returns := by
  unfold watchRings
  split
  · exact .ok n
  split
  · exact .ok n
  split
  · exact .ok n
  · exact .bind (count_returns (hn.counts .windowsMissed)) fun _ _ => .ok _

theorem probeRings_returns (hn : n.HasRoom) : (probeRings p n i a now).Returns := by
  unfold probeRings
  split
  · exact .ok n
  split
  · exact .ok n
  split
  · exact (sendProbe_returns hn).bind fun _ _ => .ok _
  · exact .ok n

theorem beginInterval_returns (h : ∀ d, n.dodags.find? i = some d →
    d.counts.HasRoom ∧ d.counts.received + d.heard < wordLimit32) :
    (beginInterval p n i now).Returns := by
  unfold beginInterval
  split
  · exact .ok n
  · rename_i d hd
    exact .bind (Dodag.begin_returns (h d hd).1 (h d hd).2) fun _ _ => .ok _

theorem advertiseRings_returns (hn : n.HasRoom) (hheard : n.HeardFits) :
    (advertiseRings p n i now).Returns := by
  unfold advertiseRings
  dsimp only
  split
  · exact .bind (count_returns (n := n.latchReady) (hn.counts .dioPostponed)) fun _ _ => .ok _
  split
  · exact .ok _
  rename_i d hd
  have hgrown : (endInterval p n.latchReady i d now).Returns := by
    refine beginInterval_returns fun d' hd' => ?_
    rw [find?_putDodag_self] at hd'
    rw [← Option.some.inj hd', Dodag.grow_eq]
    exact ⟨hn.dodags i d hd, hheard i d hd⟩
  split
  · exact takeDecision_returns ⟨hn.counts, hn.dodags, hn.purges⟩ (hn.dodags i d hd)
  all_goals exact hgrown

/-- An alarm that rings is handled as long as no statistic is at its maximum and what was heard can
be added up. -/
theorem handleRing_returns {r : Ring} (hn : n.HasRoom) (hheard : n.HeardFits) :
    (handleRing p n r).Returns := by
  obtain ⟨q, e⟩ := r
  cases q with
  | upkeep => exact upkeepRings_returns hn
  | advertise i => exact advertiseRings_returns hn hheard
  | report i => exact reportRings_returns hn
  | watch i a => exact watchRings_returns hn
  | probe i a => exact probeRings_returns hn

/-! ## The requests -/

/-- The interval that starts over has heard nothing yet. -/
theorem resetDio_returns {force : Bool} (hc : n.Spare .dioResets)
    (hd : ∀ d, n.dodags.find? i = some d → d.counts.HasRoom) :
    (resetDio p n i force now).Returns := by
  unfold resetDio
  split
  · exact .ok _
  rename_i d hfind
  split
  · exact .ok _
  refine .bind (count_returns hc) fun k hk => .bind ?_ fun _ _ => .ok _
  obtain ⟨-, rfl⟩ := count_eq_ok hk
  refine beginInterval_returns fun d' hd' => ?_
  have hrestart : d' = d.restart := Option.some.inj (hd'.symm.trans find?_putDodag_self)
  have hroom := hd d hfind
  rw [hrestart]
  exact ⟨hroom, Nat.lt_of_succ_lt hroom.received⟩

theorem join_returns {params : TrickleParams} (hn : n.HasRoom) :
    (join p n i params now).Returns := by
  unfold join
  split
  · exact .ok _
  split
  · exact .ok _
  split
  · exact .ok _
  · refine resetDio_returns (n := n.putDodag i (.new params)) (hn.counts .dioResets) fun d hd => ?_
    rw [find?_putDodag_self] at hd
    rw [← Option.some.inj hd]
    show AdvertCounts.HasRoom {}
    decide

/-- The delay of a report is less than one and a half times the latency of the platform, which
fits. -/
theorem scheduleDao_returns (hlatency : p.reportLatency.ticks ≤ wordLimit64 / 2) :
    (scheduleDao p n i now).Returns := by
  unfold scheduleDao
  split
  · exact .ok _
  split
  · exact .ok _
  have hdelay : p.reportLatency.ticks / 2 +
      (RandomSource.draw n.source 0 p.reportLatency.ticks).1 < wordLimit64 := by
    have hlt := RandomSource.draw_lt n.source 0 p.reportLatency.ticks
    have hempty := RandomSource.draw_empty n.source 0 p.reportLatency.ticks
    rw [wordLimit64] at hlatency ⊢
    omega
  exact .bind (.addChecked hdelay) fun _ _ => .ok _

omit [RandomSource ρ] in
theorem solicit_returns (hn : n.HasRoom) : (n.solicit i).Returns := by
  unfold solicit
  split
  · exact .ok _
  split
  · exact .ok _
  · rename_i d _ a _
    refine .bind ?_ fun _ _ => .ok _
    exact count_send_returns (hn.counts .probesSent) (hn.counts .controlDropped) (by decide)

omit [RandomSource ρ] in
/-- Lateness is measured only of an advertisement that comes after it was expected, so an
advertisement is received whatever schedule it announces. -/
theorem dioReceived_returns {l : Lookahead} (hn : n.Spare .latencySamples) :
    (dioReceived p n i a l now).Returns := by
  by_cases htracked : ∃ d w, n.dodags.find? i = some d ∧ d.preferred = some a ∧
      d.parents.find? a = some w
  · obtain ⟨d, w, hd, hp, hw⟩ := htracked
    rw [dioReceived_eq hd hp hw]
    split
    case h_3 hlate =>
      have hlt := (Watch.reception_eq_late_iff.1 hlate).2
      refine .bind (.since? hlt) fun latency _ => ?_
      exact .bind (count_returns (n := n.putWatch i d a _) hn) fun _ _ => .ok _
    all_goals exact .ok _
  · unfold dioReceived
    split
    · exact .ok _
    rename_i d hd
    split
    · exact .ok _
    rename_i hp
    split
    · exact .ok _
    · rename_i w hw
      exact (htracked ⟨d, w, hd, not_ne_iff.1 hp, hw⟩).elim

/-- A request that lets no alarm ring has a result as long as no statistic is at its maximum. -/
theorem perform_returns {o : Operation} (hlatency : p.reportLatency.ticks ≤ wordLimit64 / 2)
    (hn : n.HasRoom) (ho : o ≠ .handleTimer) : (n.perform p o now).Returns := by
  cases o with
  | join i params => exact join_returns hn
  | handleTimer => exact absurd rfl ho
  | command c =>
    cases c with
    | resetDio i force => exact resetDio_returns (hn.counts .dioResets) (hn.dodags i)
    | scheduleDao i => exact scheduleDao_returns hlatency
    | dioReceived i a l => exact dioReceived_returns (hn.counts .latencySamples)
    | solicit i => exact solicit_returns hn
    | dioConsistent i => exact .ok _
    | setPreferred i b => exact .ok _
    | restartUpkeep => exact .ok _
  | leave i => exact .ok _
  | addParent i a => exact .ok _
  | removeParent i a => exact .ok _
  | scheduleReception i a delay listen jitter => exact .ok _

/-! ## All of it -/

/-- While alarms ring, the exponent of every interval stays below the largest byte. -/
theorem Rung.exponent_lt {ms : List (Moment ρ)} (h : Rung p now n ms k) (hn : Reachable p n)
    (hd : k.dodags.find? i = some d) : d.exponent + 1 < 256 := by
  have hpaced : d.Paced p := (h.trail.orderly hn.soundTracks hn.orderly).paced i d hd
  have hle := hpaced.le_max
  have hlt := hpaced.valid.maxExponent_lt
  rw [TrickleParams.exponentLimit] at hlt
  omega

/-- Take a reachable node with no statistic at its maximum, on a platform whose reports are delayed
by at most half the range of the clock, and any instant, early or late.  Every split is drawn.
Every request other than one to let alarms ring has a result.  However many alarms ring, the
exponents leave room for one more, and the next alarm is handled unless a statistic has no room by
then; so a call that lets alarms ring is stopped by nothing else, unless its alarms ring for
ever. -/
theorem arithmetic_stays_in_range
    (hlatency : p.reportLatency.ticks ≤ wordLimit64 / 2) (hn : Reachable p n) (hroom : n.HasRoom)
    (now : Instant) :
    (∀ (exponent : Nat) (source : ρ), (Split.draw p exponent source).Returns) ∧
    (∀ o, o ≠ .handleTimer → (n.perform p o now).Returns) ∧
    (∀ ms k, Rung p now n ms k →
      (∀ i d, k.dodags.find? i = some d → d.exponent + 1 < 256) ∧
      ∀ r alarms, k.alarms.ring? now = some (r, alarms) → k.HasRoom → k.HeardFits →
        (handleRing p { k with alarms } r).Returns) ∧
    ∀ f, handleTimer p n now = .error f → f = .stalled ∨ f = .addOverflow ∧
      ∃ ms k, Rung p now n ms k ∧ k.alarms.ring? now ≠ none ∧ ¬(k.HasRoom ∧ k.HeardFits) := by
  have hring (k : Node ρ) (r : Ring) (alarms : AlarmTable) (hk : k.HasRoom) (hheard : k.HeardFits) :
      (handleRing p { k with alarms } r).Returns :=
    handleRing_returns ⟨hk.counts, hk.dodags, hk.purges⟩ hheard
  refine ⟨Split.draw_returns p, fun o ho => perform_returns hlatency hroom ho, ?_, ?_⟩
  · intro ms k hrung
    exact ⟨fun i d hd => hrung.exponent_lt hn hd, fun r alarms _ => hring k r alarms⟩
  · intro f hf
    rcases ringAll_eq_error hf with hstalled | ⟨ms, k, r, alarms, hrung, hdue, hfault⟩
    · exact .inl hstalled
    refine .inr ⟨(handleRing_fault hfault).1, ms, k, hrung, by simp [hdue], ?_⟩
    rintro ⟨hk, hheard⟩
    obtain ⟨m, hm⟩ := hring k r alarms hk hheard
    rw [hm] at hfault
    cases hfault

/-- A platform whose reports have the longest latency that fits. -/
def slowReports : Platform := { Platform.millis with reportLatency := .ofTicks (wordLimit64 / 2) }

/-- Requests at the first and the last instant in turn, with the longest schedule there is. -/
def farApart : List (Operation × Instant) :=
  [(.join 1 { minExponent := 39, doublings := 0 }, .last), (.addParent 1 (.linkLocal 2), .zero),
    (.command (.setPreferred 1 (some (.linkLocal 2))), .last),
    (.command (.dioReceived 1 (.linkLocal 2) {}), .zero),
    (.command (.dioReceived 1 (.linkLocal 2)
      { delay := .ofTicks maxTicks, listen := .ofTicks maxTicks, jitter := .ofTicks maxTicks }),
      .last)]

/-- The sample of lateness spans the whole range of the clock, and after it every request has a
result at every instant. -/
theorem arithmetic_stays_in_range_at_the_limits :
    ∃ ms n, record slowReports farApart (.new (Generator.fixed maxTicks) .zero true) = .ok (ms, n) ∧
      n.samples = [⟨1, .linkLocal 2, .ofTicks maxTicks⟩] ∧
      ∀ now, (∀ o, o ≠ .handleTimer → (n.perform slowReports o now).Returns) ∧
        ∀ i d, n.dodags.find? i = some d → d.exponent + 1 < 256 := by
  obtain ⟨ms, n, hrun, hsamples, hcounts, hdodags, hpurges⟩ : ∃ ms n,
      record slowReports farApart (.new (Generator.fixed maxTicks) .zero true) = .ok (ms, n) ∧
        n.samples = [⟨1, .linkLocal 2, .ofTicks maxTicks⟩] ∧ (∀ c ∈ Counter.all, n.Spare c) ∧
        (∀ e ∈ n.dodags.toList, e.2.counts.HasRoom) ∧ n.upkeep.purges + 1 < wordLimit32 :=
    ⟨_, _, rfl, rfl, by decide, by decide, by decide⟩
  have hroom : n.HasRoom :=
    { counts := fun c => hcounts c (Counter.mem_all c)
      dodags := fun i d hd => hdodags (i, d) (Table.find?_eq_some_iff.1 hd)
      purges := hpurges }
  refine ⟨ms, n, hrun, hsamples, fun now => ?_⟩
  obtain ⟨-, hrequests, hrings, -⟩ :=
    arithmetic_stays_in_range (by decide) (reachable_of_record hrun) hroom now
  exact ⟨hrequests, (hrings [] n .start).1⟩

end Node

end TrickleNet
