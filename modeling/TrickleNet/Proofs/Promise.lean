import Mathlib
import TrickleNet.Proofs.Trickle
/-!
# What a decision promises

At the decision of an interval the node knows the schedule of the next one, whether it advertises it
or not: when that interval begins, when its decision is due, and when it ends.  Unless a reset or a
leave comes between, this is what happens (`announced_schedule_is_kept`), however late the alarms
are noticed and whatever else the node does.

`Kept` says how far a promise has been kept at the end of a record.  A trickle timer that has taken
a decision is never postponed before the next one, because the node remembers that its address was
usable.
-/

namespace TrickleNet.Node

variable {ρ : Type} {p : Platform} {n k : Node ρ} {x : Moment ρ} {i : InstanceId} {t : Timer}
  {ms : List (Moment ρ)} {sentAt : Instant} {l : Lookahead} {e : Nat}

/-- The interval begins that the schedule `l` announced at an instant. -/
structure Moment.Keeps (x : Moment ρ) (i : InstanceId) (sentAt : Instant) (l : Lookahead)
    (e : Nat) : Prop where
  event : x.event = .ring ⟨.advertise i, sentAt + l.delay⟩
  begins : x.begins i = true
  timer : ∃ t, x.after.timer? i = some t ∧ t.state.exponent = e ∧ t.state.phase = .listen ∧
    t.state.jitter = l.jitter ∧ t.due = some (sentAt + l.delay + l.listen)

/-- How far a promise has been kept at the end of a record. -/
inductive Kept (i : InstanceId) (sentAt : Instant) (l : Lookahead) (e : Nat) (ms : List (Moment ρ))
    (t : Timer) : Prop
  /-- The interval is still to begin. -/
  | waiting : ms.find? (·.fires i) = none → ms.find? (·.decides i) = none →
      t.state.phase = .jitter → t.due = some (sentAt + l.delay) → t.state.lookahead = l →
        t.state.nextExponent = e → Kept i sentAt l e ms t
  /-- The interval has begun. -/
  | listening {x : Moment ρ} : ms.find? (·.fires i) = some x → x.Keeps i sentAt l e →
      ms.find? (·.decides i) = none → t.state.phase = .listen →
        t.due = some (sentAt + l.delay + l.listen) → Kept i sentAt l e ms t
  /-- The decision of the interval was taken. -/
  | decided {x y : Moment ρ} : ms.find? (·.fires i) = some x → x.Keeps i sentAt l e →
      ms.find? (·.decides i) = some y →
        y.event = .ring ⟨.advertise i, sentAt + l.delay + l.listen⟩ → Kept i sentAt l e ms t

/-- An event that neither rings the timer nor moves it leaves a promise as far as it was kept. -/
theorem Kept.idle (h : Kept i sentAt l e ms t) (hfires : x.fires i = false)
    (hdecides : x.decides i = false) {t' : Timer} (hdue : t'.due = t.due)
    (hphase : t'.state.phase = t.state.phase) (hlookahead : t'.state.lookahead = t.state.lookahead)
    (hnext : t'.state.nextExponent = t.state.nextExponent) : Kept i sentAt l e (ms ++ [x]) t' := by
  cases h with
  | waiting hnone hnone' hjitter hdue' hl he =>
    refine .waiting ?_ ?_ (hphase.trans hjitter) (hdue.trans hdue') (hlookahead.trans hl)
      (hnext.trans he)
    · rw [find?_concat_of_none hnone, hfires]
      rfl
    · rw [find?_concat_of_none hnone', hdecides]
      rfl
  | listening hsome hkeeps hnone hlisten hdue' =>
    refine .listening (find?_concat_of_some hsome) hkeeps ?_ (hphase.trans hlisten)
      (hdue.trans hdue')
    rw [find?_concat_of_none hnone, hdecides]
    rfl
  | decided hsome hkeeps hsome' hy =>
    exact .decided (find?_concat_of_some hsome) hkeeps (find?_concat_of_some hsome') hy

/-- A decision can only be the one that was promised. -/
theorem Kept.decide {due : Instant} {t' : Timer} (h : Kept i sentAt l e ms t)
    (hsignal : x.event.signal? i = some (.ring due)) (hdue : t.due = some due)
    (hphase : t.state.phase = .listen) (hdecides : x.decides i = true) :
    Kept i sentAt l e (ms ++ [x]) t' := by
  cases h with
  | waiting _ _ hjitter =>
    rw [hphase] at hjitter
    cases hjitter
  | listening hsome hkeeps hnone _ hdue' =>
    obtain rfl := Option.some.inj (hdue.symm.trans hdue')
    refine .decided (find?_concat_of_some hsome) hkeeps (y := x) ?_
      (Event.eq_ring_of_signal? hsignal)
    rw [find?_concat_of_none hnone, hdecides]
    rfl
  | decided hsome hkeeps hsome' hy =>
    exact .decided (find?_concat_of_some hsome) hkeeps (find?_concat_of_some hsome') hy

variable [RandomSource ρ]

/-- An interval can only begin as it was promised. -/
theorem Kept.begin {due : Instant} {split : Split} {d : Dodag} {source source' : ρ}
    (h : Kept i sentAt l e ms t) (ht : t.state.Timed p)
    (hsignal : x.event.signal? i = some (.ring due)) (hdue : t.due = some due)
    (hphase : t.state.phase ≠ .listen) (hbegins : x.begins i = true)
    (hdecides : x.decides i = false)
    (hbegin : t.state.grow.begin p source = .ok (split, d, source'))
    (hafter : x.after.timer? i = some ⟨d, some (due + split.listen)⟩) :
    Kept i sentAt l e (ms ++ [x]) ⟨d, some (due + split.listen)⟩ := by
  cases h with
  | waiting hnone hnone' _ hdue' hl he =>
    obtain rfl := Option.some.inj (hdue.symm.trans hdue')
    obtain ⟨hpending, -, -, hexponent⟩ := ht.toPaced.begin_grow hbegin
    obtain ⟨middle, next, -, -, -, -, hd⟩ := Dodag.begin_eq_ok hbegin
    have hlisten : split.listen = l.listen := by
      rw [← hl, Dodag.lookahead, hpending]
      rfl
    have hjitter : d.jitter = l.jitter := by
      rw [hd, ← hl, Dodag.lookahead, hpending]
      rfl
    have hstart : d.phase = .listen := phase_of_begin hbegin
    refine .listening (x := x) ?_ ⟨Event.eq_ring_of_signal? hsignal, hbegins, _, hafter,
      hexponent.trans he, hstart, hjitter, ?_⟩ ?_ hstart ?_
    · rw [find?_concat_of_none hnone, Moment.fires_of_ring hsignal]
      rfl
    · rw [hlisten]
    · rw [find?_concat_of_none hnone', hdecides]
      rfl
    · rw [hlisten]
  | listening _ _ _ hlisten => exact absurd hlisten hphase
  | decided hsome hkeeps hsome' hy =>
    exact .decided (find?_concat_of_some hsome) hkeeps (find?_concat_of_some hsome') hy

/-- Whatever happens except a reset or a leave, the promise is kept one event further. -/
theorem Kept.snoc (h : Kept i sentAt l e ms t) (ht : t.state.Timed p)
    (hbefore : x.before.timer? i = some t) (hready : x.before.mayAdvertise = true)
    (hx : x.Valid p) (hreset : x.resets i = false) (hleave : x.leaves i = false) :
    ∃ t', x.after.timer? i = some t' ∧ Kept i sentAt l e (ms ++ [x]) t' := by
  cases hx.course hbefore with
  | idle hfires _ _ _ hdecides hafter =>
    refine ⟨_, hafter, h.idle hfires hdecides rfl ?_ ?_ ?_⟩ <;> cases x.hears i <;> rfl
  | postponed _ _ hnot =>
    rw [latchReady, hready] at hnot
    cases hnot
  | decided hsignal hdue _ hphase _ hdecides hafter =>
    exact ⟨_, hafter, h.decide hsignal hdue hphase hdecides⟩
  | ended hsignal hdue _ hphase hbegins hdecides hbegin hafter =>
    exact ⟨_, hafter, h.begin ht hsignal hdue hphase hbegins hdecides hbegin hafter⟩
  | reset _ hyes =>
    rw [hreset] at hyes
    cases hyes
  | left hsignal =>
    rw [Moment.leaves, hsignal] at hleave
    cases hleave

/-- A promise is kept as long as neither a reset nor a leave comes between. -/
theorem Trail.kept (h : Trail p n ms k) (hms : ∀ x ∈ ms, x.resets i = false ∧ x.leaves i = false)
    (hready : n.mayAdvertise = true) (ht : n.timer? i = some t) (htimed : t.state.Timed p)
    (hkept : Kept i sentAt l e ([] : List (Moment ρ)) t) :
    ∃ t', k.timer? i = some t' ∧ Kept i sentAt l e ms t' := by
  have hfair (x : Moment ρ) (hx : x ∈ ms) :
      x.before.mayAdvertise = true ∧ x.resets i = false ∧ x.leaves i = false :=
    ⟨h.mayAdvertise hready x hx, hms x hx⟩
  have hinv : ∃ t', k.timer? i = some t' ∧ t'.state.Timed p ∧ Kept i sentAt l e ms t' := by
    refine Trail.timer_induction (motive := fun ms t => t.state.Timed p ∧ Kept i sentAt l e ms t)
      ⟨htimed, hkept⟩ ?_ h ht hfair
    rintro ms x t hx ⟨hready, hreset, hleave⟩ ht ⟨htimed, hkept⟩
    obtain ⟨t', ht', hnext⟩ := hkept.snoc htimed ht hready hx hreset hleave
    refine ⟨t', ht', (hx.turns.timers i).timed ?_ t' ht', hnext⟩
    rw [ht]
    rintro u ⟨⟩
    exact htimed
  obtain ⟨t', ht', -, hkept'⟩ := hinv
  exact ⟨t', ht', hkept'⟩

/-- The schedule that is known at a decision is kept, whether the interval ends in an advertisement
or not.  As long as the instance is neither reset nor left, the next alarm of its trickle timer has
the deadline that is one delay after that of the decision and begins an interval with the phases
that were announced, one longer than the one before or as long as intervals get; the next decision
has the deadline that is one announced listen phase later.  Until then the alarm is set for these
deadlines.  Sums of instants are clamped to the last one, so below it they are exact. -/
theorem announced_schedule_is_kept {source : ρ} {clock : Instant} {ready : Bool}
    {pre post : List (Moment ρ)} {s : Moment ρ} {sentAt : Instant} {d : Dodag}
    (hrun : Run p (.new source clock ready) (pre ++ s :: post) n)
    (hring : s.event = .ring ⟨.advertise i, sentAt⟩) (hdecides : s.decides i = true)
    (hd : s.before.dodags.find? i = some d)
    (hpost : ∀ x ∈ post, x.resets i = false ∧ x.leaves i = false) :
    (∀ x, post.find? (·.fires i) = some x →
      x.event = .ring ⟨.advertise i, sentAt + d.lookahead.delay⟩ ∧ x.begins i = true ∧
      ∃ d', x.after.dodags.find? i = some d' ∧ d'.phase = .listen ∧
        d'.exponent = min (d.exponent + 1) (d.params.minExponent.toNat + d.params.doublings.toNat) ∧
        d'.jitter = d.lookahead.jitter ∧
        x.after.alarms.deadline? (.advertise i) =
          some (sentAt + d.lookahead.delay + d.lookahead.listen)) ∧
    (∀ x, post.find? (·.decides i) = some x →
      x.event = .ring ⟨.advertise i, sentAt + d.lookahead.delay + d.lookahead.listen⟩) ∧
    (post.find? (·.fires i) = none →
      n.alarms.deadline? (.advertise i) = some (sentAt + d.lookahead.delay)) ∧
    (post.find? (·.fires i) ≠ none → post.find? (·.decides i) = none →
      n.alarms.deadline? (.advertise i) =
        some (sentAt + d.lookahead.delay + d.lookahead.listen)) := by
  obtain ⟨-, hms⟩ := hrun.trail.timed (timed_new p source clock ready)
  obtain ⟨hs, htimed⟩ := hms s (List.mem_append_right _ List.mem_cons_self)
  obtain ⟨-, -, htrail⟩ := hrun.trail.cut
  have hsignal : s.event.signal? i = some (.ring sentAt) := by
    rw [hring]
    exact if_pos rfl
  have hbefore := timer?_of_find? hd
  obtain ⟨e, hsignal', -, hready, -, hafter⟩ := (hs.course hbefore).of_decides hdecides
  obtain rfl := Signal.ring.inj (Option.some.inj (hsignal.symm.trans hsignal'))
  have hlatched := (hs.turns.latched i sentAt hsignal).trans hready
  have hnext := (htimed i _ hbefore).nextExponent_eq
  obtain ⟨t, ht, hkept⟩ := htrail.kept (l := d.lookahead) (e := d.nextExponent) hpost hlatched
    hafter (htimed i _ hbefore).decided (.waiting rfl rfl rfl rfl rfl rfl)
  obtain ⟨d', hd', rfl⟩ := find?_of_timer? ht
  have hbegun {x : Moment ρ} (hx : x.Keeps i sentAt d.lookahead d.nextExponent) :
      ∃ d', x.after.dodags.find? i = some d' ∧ d'.phase = .listen ∧
        d'.exponent = min (d.exponent + 1) (d.params.minExponent.toNat + d.params.doublings.toNat) ∧
        d'.jitter = d.lookahead.jitter ∧
        x.after.alarms.deadline? (.advertise i) =
          some (sentAt + d.lookahead.delay + d.lookahead.listen) := by
    obtain ⟨t, ht, hexponent, hphase, hjitter, hdue⟩ := hx.timer
    obtain ⟨d', hd', rfl⟩ := find?_of_timer? ht
    exact ⟨d', hd', hphase, hexponent.trans hnext, hjitter, hdue⟩
  cases hkept with
  | waiting hnone hnone' _ hdue =>
    rw [hnone, hnone']
    exact ⟨by simp, by simp, fun _ => hdue, by simp⟩
  | listening hsome hkeeps hnone _ hdue =>
    rw [hsome, hnone]
    refine ⟨?_, by simp, by simp, fun _ _ => hdue⟩
    rintro x ⟨⟩
    exact ⟨hkeeps.event, hkeeps.begins, hbegun hkeeps⟩
  | decided hsome hkeeps hsome' hy =>
    rw [hsome, hsome']
    refine ⟨?_, ?_, by simp, by simp⟩
    · rintro x ⟨⟩
      exact ⟨hkeeps.event, hkeeps.begins, hbegun hkeeps⟩
    · rintro x ⟨⟩
      exact hy

/-- Requests to a node that joins an instance and lets its alarms ring at the ends of two phases;
then it hears an advertisement, notices its alarms long after they were due, and sees them once
more. -/
def noticedLate : List (Operation × Instant) :=
  [(.join 1 { minExponent := 3, doublings := 1 }, .zero), (.handleTimer, .ofTicks 4),
    (.command (.dioConsistent 1), .ofTicks 5), (.handleTimer, .ofTicks 17)]

/-- The decision at the fourth millisecond announces that the interval of 16 ms begins 4 ms later
and takes its decision 8 ms after that.  Both alarms are noticed in one call, and have these
deadlines. -/
theorem announced_schedule_is_kept_late :
    ∃ (pre post : List (Moment Generator)) (s x y : Moment Generator) (n : Node Generator),
      record .millis noticedLate (.new (.fixed 0) .zero true) = .ok (pre ++ s :: post, n) ∧
      s.event = .ring ⟨.advertise 1, .ofTicks 4⟩ ∧ s.decides 1 = true ∧
      (∀ z ∈ post, z.resets 1 = false ∧ z.leaves 1 = false) ∧
      post.find? (·.fires 1) = some x ∧ x.event = .ring ⟨.advertise 1, .ofTicks 8⟩ ∧
      post.find? (·.decides 1) = some y ∧ y.event = .ring ⟨.advertise 1, .ofTicks 16⟩ := by
  obtain ⟨pre, post, s, x, y, n, d, hrecord, hring, hdecides, hd, hlookahead, hpost, hx, hy⟩ :
      ∃ (pre post : List (Moment Generator)) (s x y : Moment Generator) (n : Node Generator)
        (d : Dodag), record .millis noticedLate (.new (.fixed 0) .zero true) =
          .ok (pre ++ s :: post, n) ∧
        s.event = .ring ⟨.advertise 1, .ofTicks 4⟩ ∧ s.decides 1 = true ∧
        s.before.dodags.find? 1 = some d ∧ d.lookahead = ⟨.ofTicks 4, .ofTicks 8, .ofTicks 8⟩ ∧
        (∀ z ∈ post, z.resets 1 = false ∧ z.leaves 1 = false) ∧
        post.find? (·.fires 1) = some x ∧ post.find? (·.decides 1) = some y :=
    ⟨[_], [_, _, _, _, _], _, _, _, _, _, rfl, rfl, rfl, rfl, rfl, by decide, rfl, rfl⟩
  have hrun : Run .millis (.new (Generator.fixed 0) .zero true) (pre ++ s :: post) n :=
    Run.start.record hrecord
  have hkept := announced_schedule_is_kept hrun hring hdecides hd hpost
  rw [hlookahead] at hkept
  exact ⟨pre, post, s, x, y, n, hrecord, hring, hdecides, hpost, hx, (hkept.1 x hx).1, hy,
    hkept.2.1 y hy⟩

end TrickleNet.Node
