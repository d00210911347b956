import Mathlib
import TrickleNet.Proofs.Backlog
import TrickleNet.Proofs.Finish
/-!
# Letting alarms ring comes to an end

On a platform whose delays last at least one tick, `Node.handleTimer` lets finitely many alarms ring
on every reachable node, in the order of their deadlines, and leaves none behind that is due
(`handleTimer_is_complete`).  It stops early for no other reason than a 32-bit counter with hardly
any room left.
-/

namespace TrickleNet

theorem Instant.le_add (t : Instant) (after : Span) : t ≤ t + after := by
  have hle := t.ticks_le
  rw [Instant.le_iff, Instant.ticks_add]
  omega

namespace Node

variable {ρ : Type} {p : Platform} {n m k : Node ρ} {q q' : Purpose} {now e d lo : Instant}
  {ms : List (Moment ρ)}

/-! ## The order of the alarms -/

/-- Nothing is set for an instant before the alarm that rings. -/
theorem Rang.le_of_deadline? (h : Rang p n m e q)
    (hfirst : ∀ q' d, n.alarms.deadline? q' = some d → e ≤ d)
    (hd : m.alarms.deadline? q' = some d) : e ≤ d := by
  have hstop (hd : (n.alarms.stop q).deadline? q' = some d) : e ≤ d := by
    rw [AlarmTable.deadline?_stop] at hd
    split at hd
    · cases hd
    · exact hfirst q' d hd
  rcases h.alarms with halarms | ⟨after, halarms⟩
  · rw [halarms] at hd
    exact hstop hd
  · rw [halarms, AlarmTable.deadline?_set] at hd
    split at hd
    · rw [← Option.some.inj hd]
      exact Instant.le_add e after
    · exact hstop hd

/-- The other alarms stay armed. -/
theorem Rang.armed (h : Rang p n m e q) (hne : q' ≠ q) (hq' : n.alarms.isArmed q' = true) :
    m.alarms.isArmed q' = true := by
  have hstop : (n.alarms.stop q).isArmed q' = true := by
    rw [AlarmTable.isArmed, AlarmTable.deadline?_stop, if_neg hne]
    exact hq'
  rcases h.alarms with halarms | ⟨after, halarms⟩
  · rw [halarms]
    exact hstop
  · rw [halarms, AlarmTable.isArmed, AlarmTable.deadline?_set]
    split
    · rfl
    · exact hstop

/-- The deadlines of the alarms of a record, in the order in which they rang. -/
def deadlines (ms : List (Moment ρ)) : List Instant :=
  ms.filterMap fun s => match s.event with
    | .ring r => some r.deadline
    | _ => none

variable [RandomSource ρ]

/-- The alarms ring in the order of their deadlines, none before it is due. -/
theorem Rung.pairwise_deadlines (h : Rung p now n ms k) (hn : n.SoundTracks ∧ n.Orderly p)
    (hlo : ∀ q d, n.alarms.deadline? q = some d → lo ≤ d) :
    (deadlines ms).Pairwise (· ≤ ·) ∧ ∀ d ∈ deadlines ms, lo ≤ d ∧ d ≤ now := by
  induction h generalizing lo with
  | start => exact ⟨.nil, fun _ hd => by cases hd⟩
  | @ring n m k r alarms ms hring hm _ ih =>
    obtain ⟨hd, hle, -, hfirst⟩ := AlarmTable.ring?_eq_some hring
    obtain ⟨hrang, hm⟩ := ring_orderly hn hring hm
    have hlo' := hlo _ _ hd
    obtain ⟨hsorted, hbounds⟩ := ih hm fun q d => hrang.le_of_deadline? hfirst
    have hcons : deadlines (⟨n, .ring r, m⟩ :: ms) = r.deadline :: deadlines ms := rfl
    rw [hcons]
    constructor
    · exact List.pairwise_cons.2 ⟨fun d hd => (hbounds d hd).1, hsorted⟩
    · intro d hd
      rcases List.mem_cons.1 hd with rfl | hd
      · exact ⟨hlo', hle⟩
      · exact ⟨Nat.le_trans hlo' (hbounds d hd).1, (hbounds d hd).2⟩

/-- An alarm that does not ring stays armed. -/
theorem Rung.armed (h : Rung p now n ms k) (hn : n.SoundTracks ∧ n.Orderly p)
    (hq : ∀ s ∈ ms, ∀ d, s.event ≠ .ring ⟨q, d⟩) (harmed : n.alarms.isArmed q = true) :
    k.alarms.isArmed q = true := by
  induction h with
  | start => exact harmed
  | @ring n m k r alarms ms hring hm _ ih =>
    obtain ⟨hrang, hm⟩ := ring_orderly hn hring hm
    have hne : q ≠ r.purpose := by
      rintro rfl
      exact hq _ List.mem_cons_self r.deadline rfl
    exact ih hm (fun s hs => hq s (List.mem_cons_of_mem _ hs)) (hrang.armed hne harmed)

/-! ## Faults -/

omit [RandomSource ρ] in
/-- The counters of a node have a bound. -/
theorem exists_within (n : Node ρ) : ∃ b, n.Within b := by
  have hcounts : ∃ b, ∀ k, n.counts.get k ≤ b := by
    refine ⟨(Counter.all.map n.counts.get).sum, fun k => ?_⟩
    exact List.single_le_sum (by simp) _ (List.mem_map_of_mem (Counter.mem_all k))
  have hdodags : ∃ b, ∀ e ∈ n.dodags.toList, e.2.Within b := by
    induction n.dodags.toList with
    | nil => exact ⟨0, by simp⟩
    | cons e es ih =>
      obtain ⟨b, hb⟩ := ih
      refine ⟨b + e.2.counts.intervals + e.2.counts.sent + (e.2.counts.received + e.2.heard) +
        e.2.counts.suppressed, fun x hx => ?_⟩
      rcases List.mem_cons.1 hx with rfl | hx
      · constructor <;> omega
      · exact (hb x hx).mono (by omega)
  obtain ⟨b, hb⟩ := hcounts
  obtain ⟨b', hb'⟩ := hdodags
  refine ⟨b + b' + n.upkeep.purges, fun k => ?_, fun i d hd => ?_, ?_⟩
  · have := hb k
    omega
  · exact (hb' _ (Table.find?_eq_some_iff.1 hd)).mono (by omega)
  · omega

/-- An alarm is stopped by a counter that has no room for three more. -/
theorem handleRing_fault {r : Ring} {alarms : AlarmTable} {f : Fault}
    (h : handleRing p { n with alarms } r = .error f) :
    f = .addOverflow ∧ ¬n.Within (wordLimit32 - 4) := by
  have hfault (b : Nat) (hw : n.Within b) : f = .addOverflow ∧ wordLimit32 ≤ b + 3 := by
    have hw' : Node.Within { n with alarms } b := ⟨hw.counts, hw.dodags, hw.purges⟩
    exact (handleRing_finishes hw').1 f h
  obtain ⟨b, hb⟩ := n.exists_within
  refine ⟨(hfault b hb).1, fun hw => ?_⟩
  have hlimit := (hfault _ hw).2
  rw [wordLimit32] at hlimit
  omega

/-- A call that does not return has come to an alarm that a counter without room stops. -/
theorem handleTimer_fault (hn : Reachable p n) (hupkeep : 1 ≤ p.upkeepInterval.ticks)
    (hpostpone : 1 ≤ p.postponeDelay.ticks) (hnow : now.ticks < maxTicks) {f : Fault}
    (h : handleTimer p n now = .error f) :
    f = .addOverflow ∧
      ∃ ms k, Rung p now n ms k ∧ k.alarms.ring? now ≠ none ∧ ¬k.Within (wordLimit32 - 4) := by
  have hsettles := settles_handleTimer hn hupkeep hpostpone hnow
  rw [h] at hsettles
  obtain ⟨ms, k, r, alarms, hrung, hring, hfault⟩ := hsettles.stopped_at
  obtain ⟨rfl, hfull⟩ := handleRing_fault hfault
  exact ⟨rfl, ms, k, hrung, by simp [hring], hfull⟩

/-! ## The whole call -/

/-- On a platform whose delays last at least one tick, a call at `now` lets finitely many alarms
ring on a reachable node, in the order of their deadlines and none that lies after `now`.  An alarm
that was due rings, or is armed for a later deadline afterwards, and the node need not wake up
before `now` has passed.  If the call does not return, then a counter had no room for three more
when one of the alarms rang. -/
theorem handleTimer_is_complete (p : Platform) (hupkeep : 1 ≤ p.upkeepInterval.ticks)
    (hpostpone : 1 ≤ p.postponeDelay.ticks) (n : Node ρ) (hn : Reachable p n) (now : Instant)
    (hnow : now.ticks < maxTicks) :
    (∀ ms k, Rung p now n ms k → ms.length ≤ n.ringBudget now ∧
      (deadlines ms).Pairwise (· ≤ ·) ∧ ∀ d ∈ deadlines ms, d ≤ now) ∧
    ((∃ m ms, handleTimer p n now = .ok m ∧ Rung p now n ms m ∧
        (∀ q d, n.alarms.deadline? q = some d → d ≤ now →
          (∃ s ∈ ms, ∃ e, s.event = .ring ⟨q, e⟩) ∨
            ∃ e, m.alarms.deadline? q = some e ∧ d < e) ∧
        ∀ wake, m.nextWake? = some wake → now < wake) ∨
      handleTimer p n now = .error .addOverflow ∧
        ∃ ms k, Rung p now n ms k ∧ k.alarms.ring? now ≠ none ∧ ¬k.Within (wordLimit32 - 4)) := by
  have hinv : n.SoundTracks ∧ n.Orderly p := ⟨hn.soundTracks, hn.orderly⟩
  constructor
  · intro ms k hrung
    have hlo (q : Purpose) (d : Instant) (_ : n.alarms.deadline? q = some d) : Instant.zero ≤ d :=
      Nat.zero_le d.ticks
    obtain ⟨hsorted, hbounds⟩ := hrung.pairwise_deadlines hinv hlo
    exact ⟨hrung.length_le hn hupkeep hpostpone hnow, hsorted, fun d hd => (hbounds d hd).2⟩
  have hsettles := settles_handleTimer hn hupkeep hpostpone hnow
  cases hresult : handleTimer p n now with
  | ok m =>
    rw [hresult] at hsettles
    obtain ⟨_, hrings⟩ := hsettles.rings
    obtain ⟨ms, -, hrung, hnone⟩ := hrings.rung
    have hlater := AlarmTable.ring?_eq_none_iff.1 hnone
    refine .inl ⟨m, ms, rfl, hrung, ?_, ?_⟩
    · intro q d hd hdue
      by_cases hq : ∃ s ∈ ms, ∃ e, s.event = .ring ⟨q, e⟩
      · exact .inl hq
      right
      have hsilent : ∀ s ∈ ms, ∀ e, s.event ≠ .ring ⟨q, e⟩ := fun s hs e he => hq ⟨s, hs, e, he⟩
      have harmed : n.alarms.isArmed q = true := AlarmTable.isArmed_iff.2 ⟨d, hd⟩
      obtain ⟨e, he⟩ := AlarmTable.isArmed_iff.1 (hrung.armed hinv hsilent harmed)
      exact ⟨e, he, Nat.lt_of_le_of_lt hdue (hlater q e he)⟩
    · intro wake hwake
      obtain ⟨q, hq⟩ := AlarmTable.exists_of_nextDeadline? hwake
      exact hlater q wake hq
  | error f =>
    rw [hresult] at hsettles
    obtain ⟨ms, k, r, alarms, hrung, hring, hfault⟩ := hsettles.stopped_at
    obtain ⟨rfl, hfull⟩ := handleRing_fault hfault
    exact .inr ⟨rfl, ms, k, hrung, by simp [hring], hfull⟩

/-- Requests to a node that joins an instance whose shortest interval lasts one tick and has no
listen phase. -/
def shortIntervals : List (Operation × Instant) :=
  [(.join 1 { minExponent := 0, doublings := 2 }, .zero), (.addParent 1 (.linkLocal 2), .zero),
    (.command (.setPreferred 1 (some (.linkLocal 2))), .zero), (.command (.scheduleDao 1), .zero),
    (.command .restartUpkeep, .zero)]

/-- The decision of the first interval is due with the request to join, and the intervals up to the
tenth tick are made up for in one call. -/
theorem handleTimer_is_complete_for_short_intervals :
    ∃ ms n, record .millis shortIntervals (.new (Generator.fixed 0) .zero true) = .ok (ms, n) ∧
      n.alarms.deadline? (.advertise 1) = some .zero ∧
      ∃ m rs, handleTimer .millis n (.ofTicks 10) = .ok m ∧ Rung .millis (.ofTicks 10) n rs m ∧
        rs.length ≤ n.ringBudget (.ofTicks 10) ∧ (deadlines rs).Pairwise (· ≤ ·) ∧
        ∀ wake, m.nextWake? = some wake → .ofTicks 10 < wake := by
  refine ⟨_, _, rfl, rfl, ?_⟩
  have hreach (ms : List (Moment Generator)) (n : Node Generator)
      (h : record .millis shortIntervals (.new (.fixed 0) .zero true) = .ok (ms, n)) :
      Reachable .millis n := reachable_of_record h
  have hfinishes (n m : Node Generator)
      (herror : handleTimer .millis n (.ofTicks 10) = .error .addOverflow)
      (hm : handleTimer .millis n (.ofTicks 10) = .ok m) : False := by
    rw [hm] at herror
    cases herror
  obtain ⟨hrung, ⟨m, rs, hm, hrs, -, hwake⟩ | ⟨herror, -⟩⟩ :=
    handleTimer_is_complete .millis (by decide) (by decide) _ (hreach _ _ rfl) (.ofTicks 10)
      (by decide)
  · exact ⟨m, rs, hm, hrs, (hrung rs m hrs).1, (hrung rs m hrs).2.1, hwake⟩
  · exact (hfinishes _ _ herror rfl).elim

end Node

end TrickleNet
