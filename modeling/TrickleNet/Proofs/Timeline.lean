import Mathlib
import TrickleNet.Proofs.Emission
import TrickleNet.Proofs.Punctual
/-!
# The timeline in the logbook

The logbook of a simulation has a record of every decision about a parent that its stations took.
The records come from the traces of the stations, which lose what they have no room for, and so do
outboxes.  Neither ever fills up: a call makes a few requests, or it lets alarms ring.  Those that
ring do so on time, and as a station knows of one instance only, there are at most six of them
(`Punctual.says`).

So a call tells all that it counts, and `Station.Documented` is kept: the records of a station are
what it counted and measured (`timeline_is_complete`).
-/

namespace TrickleNet

/-- The lateness that a record gives. -/
def LivenessKind.lateness? : LivenessKind → Option Span
  | .latency lateness => some lateness
  | _ => none

/-! ## The records of a trace -/

section Records

variable {time : Instant} {a b : Address} {events : List TraceEvent}

/-- Records of a kind are as many as the events that tell of one. -/
theorem LivenessRecord.countP_ofTrace {f : LivenessKind → Bool} {g : TraceEvent → Bool}
    (h : ∀ e, g e = (LivenessKind.ofEvent? e).any fun x => f x.2) :
    (ofTrace time a events).countP (fun r => f r.kind) = events.countP g := by
  rw [ofTrace, List.countP_filterMap]
  congr 1
  funext e
  rw [h e]
  cases LivenessKind.ofEvent? e <;> rfl

/-- The measurements in the records are those of the trace. -/
theorem LivenessRecord.lateness_ofTrace :
    (ofTrace time a events).filterMap (fun r => r.kind.lateness?) =
      events.filterMap TraceEvent.lateness? := by
  rw [ofTrace, List.filterMap_filterMap]
  congr 1
  funext e
  cases e <;> rfl

/-- The records of a trace are about the station that left it. -/
theorem LivenessRecord.filter_ofTrace :
    (ofTrace time a events).filter (fun r => r.station = b) =
      if b = a then ofTrace time a events else [] := by
  have hstation (r : LivenessRecord) (hr : r ∈ ofTrace time a events) : r.station = a :=
    (Simulation.time_of_ofTrace hr).2
  split
  · rename_i hab
    exact List.filter_eq_self.2 fun r hr => by simp [hstation r hr, hab]
  · rename_i hab
    exact List.filter_eq_nil_iff.2 fun r hr => by simp [hstation r hr, Ne.symm hab]

end Records

/-- The station has dropped no message, and the records tell of each window that it missed, of each
probe that it sent, and of each sample that its objective function received. -/
structure Station.Documented (t : Station) (records : List LivenessRecord) : Prop where
  dropped : t.node.counts.controlDropped = 0
  missed : records.countP (fun r => r.kind = .missed) = t.node.counts.windowsMissed
  probes : records.countP (fun r => r.kind = .probe) = t.node.counts.probesSent
  measured : records.countP (fun r => r.kind.lateness?.isSome) = t.node.counts.latencySamples
  samples : records.filterMap (fun r => r.kind.lateness?) = t.node.samples.map LatencySample.latency

theorem Station.Documented.congr {t u : Station} {records : List LivenessRecord}
    (h : t.Documented records) (hcounts : u.node.counts = t.node.counts)
    (hsamples : u.node.samples = t.node.samples) : u.Documented records where
  dropped := by rw [hcounts, h.dropped]
  missed := by rw [hcounts, h.missed]
  probes := by rw [hcounts, h.probes]
  measured := by rw [hcounts, h.measured]
  samples := by rw [hsamples, h.samples]

/-- A call whose mailboxes have room for all that is told and sent leaves nothing out. -/
theorem Station.Documented.call {t t' : Station} {records : List LivenessRecord}
    {events : List TraceEvent} {messages : List Control} (h : t.Documented records)
    (hemits : t.node.Emits t'.node events messages)
    (hdropped : t'.node.counts.controlDropped = t.node.counts.controlDropped) (time : Instant)
    (a : Address) : t'.Documented (records ++ LivenessRecord.ofTrace time a events) where
  dropped := hdropped.trans h.dropped
  missed := by
    have htold : (LivenessRecord.ofTrace time a events).countP (fun r => r.kind = .missed) =
        events.countP fun e => e.counter? = some .windowsMissed :=
      LivenessRecord.countP_ofTrace (f := fun k => k = .missed) fun e => by cases e <;> rfl
    rw [List.countP_append, h.missed, htold]
    exact (hemits.counts .windowsMissed (by simp)).symm
  probes := by
    have htold : (LivenessRecord.ofTrace time a events).countP (fun r => r.kind = .probe) =
        events.countP fun e => e.counter? = some .probesSent :=
      LivenessRecord.countP_ofTrace (f := fun k => k = .probe) fun e => by cases e <;> rfl
    rw [List.countP_append, h.probes, htold]
    exact (hemits.counts .probesSent (by simp)).symm
  measured := by
    have htold : (LivenessRecord.ofTrace time a events).countP (fun r => r.kind.lateness?.isSome) =
        events.countP fun e => e.counter? = some .latencySamples :=
      LivenessRecord.countP_ofTrace (f := fun k => k.lateness?.isSome) fun e => by cases e <;> rfl
    rw [List.countP_append, h.measured, htold]
    exact (hemits.counts .latencySamples (by simp)).symm
  samples := by
    rw [List.filterMap_append, h.samples, LivenessRecord.lateness_ofTrace, hemits.samples]

namespace Simulation

variable {s s' : Simulation} {xs : List Scene} {c : Move} {t t' u : Station} {a b : Address}

/-! ## How much a call tells -/

/-- The maintenance tickers of all stations run. -/
def Ticking (s : Simulation) : Prop :=
  ∀ a t, s.stations.find? a = some t → t.node.alarms.isArmed .upkeep = true

/-- No call stops the ticker of a station. -/
theorem Ticking.called (ht : s.Ticking) (hs : s.Sound) (h : s.Called c t t') :
    t'.node.alarms.isArmed .upkeep = true := by
  obtain ⟨hreach, -⟩ := h.fresh hs
  rcases h.before hs with ⟨seed, rfl, rfl⟩ | ⟨u, hu, hsame⟩
  · cases h with
    | start ht =>
      cases ht
      exact Node.isArmed_restartUpkeep
  have harmed : t.node.alarms.isArmed .upkeep = true := by
    rcases hsame with rfl | rfl
    · exact ht _ t hu
    · exact ht _ u hu
  rcases hs.called h with ⟨⟨k, -, hasks⟩, -⟩ | ⟨-, -, -, -, -, -, ht'⟩
  · obtain ⟨os, -, hplain, hos⟩ := hasks.node
    refine hos.invariant (I := fun n => n.alarms.isArmed .upkeep = true) (fun _ _ h => h) ?_ harmed
    exact fun n o out ho hn hout => Node.ticking_perform (hplain o ho).ne_handleTimer hout hn
  · obtain ⟨n, ms, rfl, -, hrung, -, horderly⟩ := Station.rung_of_handleTimer hreach ht'
    exact hrung.ticking horderly harmed

theorem Ticking.proceed (ht : s.Ticking) (hs : s.Sound)
    (h : s.proceed c = .ok s') : s'.Ticking := by
  intro a u hu
  rcases station_of_proceed h hu with ⟨v, hv, rfl | ⟨ready, rfl⟩⟩ | ⟨t, t', hcalled, -, rfl⟩
  · exact ht a u hv
  · exact ht a v hv
  · have harmed := ht.called hs hcalled
    exact harmed

theorem Run.ticking {seed : UInt64} (hrun : Run (.new seed) xs s) : s.Ticking :=
  hrun.invariant_of_sound (fun _ _ _ hs ht h => ht.proceed hs h) fun _ _ h => by cases h

/-- A call tells of at most twelve decisions and sends at most six messages. -/
theorem Punctual.says (hp : s.Punctual) (hs : s.Sound) (ht : s.Ticking) (h : s.Called c t t') :
    Node.Says 12 6 t.node t'.node := by
  obtain ⟨hreach, -, -, hsingle⟩ := h.fresh hs
  rcases hs.called h with ⟨⟨k, hk, hasks⟩, -⟩ | ⟨-, u, -, hu, -, rfl, ht'⟩
  · obtain ⟨os, hlength, hplain, hos⟩ := hasks.node
    have hsays := hos.says fun o ho => (hplain o ho).ne_handleTimer
    exact hsays.mono (by omega) (by omega)
  · have hahead := (hp.called hs h).1
    obtain ⟨n, ms, rfl, -, hrung, hnone, horderly⟩ := Station.rung_of_handleTimer hreach ht'
    have hsize : u.node.dodags.size ≤ 1 := by
      rw [← Table.length_keys]
      have hkeys : u.node.dodags.keys ⊆ [simulatedInstance] := fun i hi =>
        List.mem_singleton.2 (hsingle i (Table.mem_keys_iff.1 hi))
      exact (u.node.dodags.nodup_keys.subperm hkeys).length_le
    have hlength : ms.length ≤ 1 + 5 * u.node.dodags.size :=
      hrung.length_le_of_ahead horderly (hahead.congr rfl) (ht _ u hu) hnone (by decide) (by decide)
    have hclock : Node.Says 0 0 u.node { u.node with clock := (s.opened c).now } :=
      .of_eq rfl rfl rfl rfl
    exact (hclock.trans hrung.says).mono (by omega) (by omega)

/-- So a call loses nothing of what it tells and sends. -/
theorem Punctual.emits (hp : s.Punctual) (hs : s.Sound) (ht : s.Ticking) (h : s.Called c t t') :
    ∃ events messages, t.node.Emits t'.node events messages ∧
      events.length ≤ 12 ∧ messages.length ≤ 6 ∧
      t'.node.trace.toList = events ∧ t'.node.outbox.toList = messages ∧
      t'.node.counts.controlDropped = t.node.counts.controlDropped := by
  obtain ⟨-, htrace, houtbox, -⟩ := h.fresh hs
  obtain ⟨events, messages, hevents, hmessages, hemits⟩ := hp.says hs ht h
  have htrace' : t.node.trace.toList = [] := by rw [htrace, Mailbox.toList_empty]
  have houtbox' : t.node.outbox.toList = [] := by rw [houtbox, Mailbox.toList_empty]
  have hlossless := hemits.lossless
  simp only [htrace', houtbox', List.length_nil, Nat.zero_add, List.nil_append] at hlossless
  obtain ⟨htold, hsent, hdropped⟩ :=
    hlossless (hevents.trans (by decide)) (hmessages.trans (by decide))
  exact ⟨events, messages, hemits, hevents, hmessages, htold, hsent, hdropped⟩

/-! ## The records of all stations -/

/-- The logbook documents what all stations did, and is about no others. -/
structure Documented (s : Simulation) : Prop where
  station : ∀ a t, s.stations.find? a = some t → t.Documented (s.logbook.livenessOf a)
  known : ∀ r ∈ s.logbook.liveness, s.stations.contains r.station = true

theorem documented_new (seed : UInt64) : (Simulation.new seed).Documented where
  station _ _ h := by cases h
  known _ h := by cases h

/-- What a station did is documented when it is called. -/
theorem Documented.called (hd : s.Documented) (hs : s.Sound) (h : s.Called c t t') :
    t.Documented (s.logbook.livenessOf t.address) := by
  rcases h.before hs with ⟨seed, -, rfl⟩ | ⟨u, hu, rfl | rfl⟩
  · -- There are no records of a station that has just been switched on.
    have hnone : s.logbook.livenessOf s.nextAddress = [] := by
      refine List.filter_eq_nil_iff.2 fun r hr hstation => ?_
      have hknown := hd.known r hr
      rw [of_decide_eq_true hstation, Table.contains, hs.find?_nextAddress] at hknown
      cases hknown
    show Station.Documented _ (s.logbook.livenessOf s.nextAddress)
    rw [hnone]
    exact ⟨rfl, rfl, rfl, rfl, rfl⟩
  · exact hd.station _ _ hu
  · exact (hd.station _ u hu).congr rfl rfl

theorem Documented.proceed (hd : s.Documented) (hp : s.Punctual) (hs : s.Sound) (ht : s.Ticking)
    (h : s.proceed c = .ok s') : s'.Documented := by
  rcases proceed_eq_ok h with ⟨hquiet, -⟩ | ⟨t, t', hcalled, hsettled⟩
  · have hliveness : s'.logbook.liveness = s.logbook.liveness := by
      rw [hquiet.liveness, logbook_opened]
    refine ⟨fun a u hu => ?_, fun r hr => ?_⟩
    · obtain ⟨v, hv, hsame⟩ := hquiet.find? hu
      rw [stations_opened] at hv
      rw [Logbook.livenessOf, hliveness]
      rcases hsame with rfl | ⟨ready, rfl⟩
      · exact hd.station a u hv
      · exact (hd.station a v hv).congr rfl rfl
    · rw [hliveness] at hr
      exact contains_of_proceed h (hd.known r hr)
  · obtain ⟨events, messages, hemits, -, -, htold, -, hdropped⟩ := hp.emits hs ht hcalled
    obtain ⟨haddress, -⟩ := hs.after_call hcalled
    have hliveness := hsettled.liveness
    rw [logbook_opened, htold] at hliveness
    have hrecords (a : Address) : s'.logbook.livenessOf a = s.logbook.livenessOf a ++
        if a = t'.address then LivenessRecord.ofTrace (s.opened c).now t'.address events
        else [] := by
      rw [Logbook.livenessOf, hliveness, List.filter_append, LivenessRecord.filter_ofTrace]
      rfl
    refine ⟨fun a u hu => ?_, fun r hr => ?_⟩
    · rw [hrecords]
      obtain ⟨rfl, rfl⟩ | ⟨hne, hu⟩ := hsettled.find? hu
      · have hcall := (hd.called hs hcalled).call hemits hdropped (s.opened c).now t'.address
        rw [if_pos rfl, haddress]
        rw [haddress] at hcall
        exact hcall.congr rfl rfl
      · rw [if_neg hne, List.append_nil]
        rw [stations_opened] at hu
        exact hd.station a u hu
    · rw [hliveness] at hr
      rcases List.mem_append.1 hr with hr | hr
      · exact contains_of_proceed h (hd.known r hr)
      · rw [(time_of_ofTrace hr).2, hsettled.stations, Table.contains_insert, decide_eq_true rfl,
          Bool.true_or]

theorem Run.documented {seed : UInt64} (hrun : Run (.new seed) xs s) : s.Documented := by
  induction hrun with
  | start => exact documented_new seed
  | move hrun hc ih => exact ih.proceed hrun.punctual hrun.sound hrun.ticking hc

/-- In every run of a simulation the timeline is complete.  At its end, which may lie after any
event, no station has dropped a message; the logbook has as many records of missed windows, of
probes and of measurements of a station as the station has counted; and the latencies that the
records give are, in order, those that the objective function of the station received.  In each call
a station tells of at most 12 decisions and sends at most 6 messages, so neither its trace, with
room for 64, nor its outbox, with room for 16, ever fills up, and they hold all of it when the call
is over. -/
theorem timeline_is_complete {seed : UInt64} (hrun : Run (.new seed) xs s) :
    (∀ a t, s.stations.find? a = some t →
      t.node.counts.controlDropped = 0 ∧
      ((s.logbook.livenessOf a).countP fun r => r.kind = .missed) = t.node.counts.windowsMissed ∧
      ((s.logbook.livenessOf a).countP fun r => r.kind = .probe) = t.node.counts.probesSent ∧
      ((s.logbook.livenessOf a).countP fun r => r.kind.lateness?.isSome) =
        t.node.counts.latencySamples ∧
      ((s.logbook.livenessOf a).filterMap fun r => r.kind.lateness?) =
        t.node.samples.map LatencySample.latency) ∧
    ∀ x ∈ xs, ∀ t t', x.before.Called x.move t t' →
      ∃ events messages, t.node.Emits t'.node events messages ∧
        events.length ≤ 12 ∧ messages.length ≤ 6 ∧
        t'.node.trace.toList = events ∧ t'.node.outbox.toList = messages := by
  refine ⟨fun a t ht => ?_, fun x hx t t' hcalled => ?_⟩
  · have hdocumented := hrun.documented.station a t ht
    exact ⟨hdocumented.dropped, hdocumented.missed, hdocumented.probes, hdocumented.measured,
      hdocumented.samples⟩
  · obtain ⟨ys, zs, -, hbefore, -, -⟩ := hrun.cut hx
    obtain ⟨events, messages, hemits, hevents, hmessages, htold, hsent, -⟩ :=
      hbefore.punctual.emits hbefore.sound hbefore.ticking hcalled
    exact ⟨events, messages, hemits, hevents, hmessages, htold, hsent⟩

/-- The links of two stations get slower by 5 ms once the second station has joined.  The
advertisement of the root that it expects next is as late as that, and there is a record of it. -/
theorem timeline_is_complete_steady :
    ∃ s₀ xs ys s t, (Experiment.steady 2).setUp = .ok s₀ ∧ Run (.new 42) (xs ++ ys) s ∧
      s.stations.find? (Experiment.address 1) = some t ∧
      t.node.samples.map LatencySample.latency = [.ofTicks 5] ∧
      ((s.logbook.livenessOf (Experiment.address 1)).filterMap fun r => r.kind.lateness?) =
        [.ofTicks 5] := by
  have hscene : ∃ s₀ ys s t, (Experiment.steady 2).setUp = .ok s₀ ∧
      s₀.record (.event :: .event ::
        .edit { Experiment.steady 2 with delay := some (.ofTicks 7) }.radio
          (Experiment.steady 2).params ::
        List.replicate 8 .event) = .ok (ys, s) ∧
      s.stations.find? (Experiment.address 1) = some t ∧
      t.node.samples.map LatencySample.latency = [.ofTicks 5] :=
    ⟨_, _, _, _, rfl, rfl, rfl, rfl⟩
  obtain ⟨s₀, ys, s, t, hs₀, hrecord, ht, hsamples⟩ := hscene
  obtain ⟨xs, hxs⟩ := run_of_setUp hs₀
  have hrun := hxs.append (run_of_record hrecord)
  obtain ⟨-, -, -, -, hrecords⟩ := (timeline_is_complete hrun).1 _ t ht
  exact ⟨s₀, xs, ys, s, t, hs₀, hrun, ht, hsamples, hrecords.trans hsamples⟩

end Simulation

end TrickleNet
