import Mathlib
import TrickleNet.Proofs.Settling
/-!
# Letting alarms ring late

Every alarm is handled as of its own deadline, so it makes no difference when `Node.handleTimer` is
called: a call that comes early and a later one leave a reachable node as the later one alone does,
down to the draws, the messages and the numbers of the armings (`handleTimer_handleTimer`).

The loop without its budget asks for the time only to see which alarms are due.  The one that rings
first at some time is the one that rings first at any later time (`AlarmTable.ring?_of_le`), so the
loop up to the earlier time is the beginning of the loop up to the later one (`Settles.append`).
-/

namespace TrickleNet

theorem Alarm.Precedes.asymm {a b : Alarm} (h : a.Precedes b) : ¬b.Precedes a := by
  simp only [Alarm.Precedes, Instant.lt_iff, Instant.ext_iff, UInt64.lt_iff_toNat_lt] at h ⊢
  omega

namespace AlarmTable

variable {t : AlarmTable} {now later : Instant} {l : List (Purpose × Alarm)} {e : Purpose × Alarm}

/-- The first alarm of a selection stays the first one when alarms are added that it precedes. -/
theorem foremost_filter {P Q : Purpose × Alarm → Bool} (hPQ : ∀ x, P x = true → Q x = true)
    (hprecedes : ∀ x y, P x = true → Q y = true → ¬P y = true → x.2.Precedes y.2)
    (h : foremost (l.filter P) = some e) : foremost (l.filter Q) = some e := by
  induction l generalizing e with
  | nil => cases h
  | cons a l ih =>
    by_cases hP : P a = true
    · rw [List.filter_cons_of_pos hP, foremost] at h
      rw [List.filter_cons_of_pos (hPQ a hP), foremost]
      cases hl : foremost (l.filter P) with
      | some b =>
        rw [hl] at h
        rw [ih hl]
        exact h
      | none =>
        rw [hl] at h
        rw [foremost_eq_none_iff, List.filter_eq_nil_iff] at hl
        cases hb : foremost (l.filter Q) with
        | none => exact h
        | some b =>
          obtain ⟨hmem, hQ⟩ := List.mem_filter.1 (foremost_mem hb)
          have hab := hprecedes a b hP hQ (hl b hmem)
          dsimp only
          rw [if_neg hab.asymm]
          exact h
    · rw [List.filter_cons_of_neg hP] at h
      by_cases hQ : Q a = true
      · obtain ⟨-, he⟩ := List.mem_filter.1 (foremost_mem h)
        rw [List.filter_cons_of_pos hQ, foremost, ih h]
        exact if_pos (hprecedes e a he hQ hP)
      · rw [List.filter_cons_of_neg hQ]
        exact ih h

/-- The alarm that is due first at some time is due first at any later time. -/
theorem due?_of_le (hle : now ≤ later) (h : t.due? now = some e) : t.due? later = some e := by
  refine foremost_filter ?_ ?_ h
  · intro x hx
    simp only [Alarm.isDue, Bool.and_eq_true, decide_eq_true_eq] at hx ⊢
    exact ⟨hx.1, Nat.le_trans hx.2 hle⟩
  · intro x y hx hy hy'
    simp only [Alarm.isDue, Bool.and_eq_true, decide_eq_true_eq, not_and,
      Instant.le_iff] at hx hy hy'
    have hlt := hy' hy.1
    left
    rw [Instant.lt_iff]
    omega

/-- What rings first at some time rings first at any later time. -/
theorem ring?_of_le {r : Ring × AlarmTable} (hle : now ≤ later) (h : t.ring? now = some r) :
    t.ring? later = some r := by
  obtain ⟨e, he, rfl⟩ := Option.map_eq_some_iff.1 h
  rw [ring?, due?_of_le hle he]
  rfl

end AlarmTable

namespace Node

variable {ρ : Type} [RandomSource ρ] {p : Platform} {n m : Node ρ} {now later : Instant}
  {x : Checked (Node ρ)}

/-- Letting alarms ring up to an earlier time is a beginning of letting them ring up to a later
one. -/
theorem Settles.append (hle : now ≤ later) (h : Settles p now n (.ok m))
    (hrest : Settles p later m x) : Settles p later n x := by
  generalize hy : (Except.ok m : Checked (Node ρ)) = y at h
  induction h with
  | settled =>
    obtain rfl := Except.ok.inj hy
    exact hrest
  | stopped => cases hy
  | ring hring hm _ ih => exact .ring (AlarmTable.ring?_of_le hle hring) hm (ih hy)

/-- An alarm that stops the loop stops it at any later time. -/
theorem Settles.stopped_later {f : Fault} (hle : now ≤ later) (h : Settles p now n (.error f)) :
    Settles p later n (.error f) := by
  generalize hy : (Except.error f : Checked (Node ρ)) = y at h
  induction h with
  | settled => cases hy
  | stopped hring hfault => exact .stopped (AlarmTable.ring?_of_le hle hring) hfault
  | ring hring hm _ ih => exact .ring (AlarmTable.ring?_of_le hle hring) hm (ih hy)

/-- On a platform whose delays last at least one tick, a call that lets the alarms of a reachable
node ring and another one later come to the same as the later one alone. -/
theorem handleTimer_handleTimer (p : Platform) (hupkeep : 1 ≤ p.upkeepInterval.ticks)
    (hpostpone : 1 ≤ p.postponeDelay.ticks) (n : Node ρ) (hn : Reachable p n) (now later : Instant)
    (hle : now ≤ later) (hlater : later.ticks < maxTicks) :
    (do handleTimer p (← handleTimer p n now) later) = handleTimer p n later := by
  have hnow : now.ticks < maxTicks := Nat.lt_of_le_of_lt hle hlater
  have hfirst := settles_handleTimer hn hupkeep hpostpone hnow
  have hwhole := settles_handleTimer hn hupkeep hpostpone hlater
  cases hm : handleTimer p n now with
  | error f =>
    rw [hm] at hfirst
    exact (hfirst.stopped_later hle).unique hwhole
  | ok m =>
    rw [hm] at hfirst
    have hreach : Reachable p m := by
      have hperform : n.perform p .handleTimer now = .ok (.granted m) := by
        rw [perform, hm]
        rfl
      exact hn.perform hperform
    have hsecond := settles_handleTimer hreach hupkeep hpostpone hlater
    exact (hfirst.append hle hsecond).unique hwhole

/-- Requests to a node that joins an instance with intervals of one to four ticks, prefers a parent
that announces a window of 20 ms, and starts its ticker. -/
def manyAlarms : List (Operation × Instant) :=
  [(.join 1 { minExponent := 0, doublings := 2 }, .zero), (.addParent 1 (.linkLocal 2), .zero),
    (.command (.setPreferred 1 (some (.linkLocal 2))), .zero),
    (.scheduleReception 1 (.linkLocal 2) .zero (.ofTicks 10) (.ofTicks 10), .zero),
    (.command .restartUpkeep, .zero)]

/-- A call after 5 ms and one after 25 ms come to the same as one call after 25 ms, in which the
parent is found silent. -/
theorem handleTimer_handleTimer_with_many_alarms :
    ∃ ms n, record .millis manyAlarms (.new (Generator.fixed 1) .zero true) = .ok (ms, n) ∧
      (do handleTimer .millis (← handleTimer .millis n (.ofTicks 5)) (.ofTicks 25)) =
        handleTimer .millis n (.ofTicks 25) ∧
      ∃ m, handleTimer .millis n (.ofTicks 25) = .ok m ∧ m.counts.windowsMissed = 1 := by
  have hreach (ms : List (Moment Generator)) (n : Node Generator)
      (h : record .millis manyAlarms (.new (.fixed 1) .zero true) = .ok (ms, n)) :
      Reachable .millis n := reachable_of_record h
  refine ⟨_, _, rfl, ?_, _, rfl, rfl⟩
  exact handleTimer_handleTimer .millis (by decide) (by decide) _ (hreach _ _ rfl) _ _ (by decide)
    (by decide)

end Node

end TrickleNet
