import Mathlib
import TrickleNet.Proofs.Finish
/-!
# A node in one instance

`Node.Steady p i a n d due` describes a node whose alarms are those of one instance `i` and one
neighbour `a` in it: `d` is what it keeps of the instance, and `due` is when its trickle timer
rings.  `Node.Turn` says what happens when that timer rings, and `Steady.advertise` that nothing
else does.

Such a node lets its alarms ring without a fault as long as no counter is full
(`Steady.handleTimer_finishes`).  The measure is `Node.owed`: an alarm that rings is armed again for
a later instant, except that an interval may end and the decision of the next one be due at once.
-/

namespace TrickleNet

/-- Twice the time for which an alarm has been due, counting the instant itself. -/
def Instant.lag (due now : Instant) : Nat :=
  if due ≤ now then 2 * (now.ticks - due.ticks) + 1 else 0

theorem Instant.lag_pos {due now : Instant} (h : due ≤ now) : 1 ≤ due.lag now := by
  rw [Instant.lag, if_pos h]
  omega

theorem Instant.lag_add_le {now : Instant} (hlt : now.ticks < maxTicks) (due : Instant)
    (after : Span) : (due + after).lag now ≤ due.lag now := by
  simp only [Instant.lag, Instant.le_iff, Instant.ticks_add]
  split <;> split <;> omega

theorem Instant.lag_add_lt {due now : Instant} {after : Span} (hlt : now.ticks < maxTicks)
    (hdue : due ≤ now) (hafter : 1 ≤ after.ticks) :
    (due + after).lag now + (if due + after ≤ now then 2 else 1) ≤ due.lag now := by
  rw [Instant.le_iff] at hdue
  simp only [Instant.lag, Instant.le_iff, Instant.ticks_add, if_pos hdue]
  split <;> omega

/-- An alarm that is armed again, for at least one tick later, has been due for less time. -/
theorem Instant.lag_add_lt_lag {due now : Instant} {after : Span} (hlt : now.ticks < maxTicks)
    (hdue : due ≤ now) (hafter : 1 ≤ after.ticks) : (due + after).lag now < due.lag now := by
  have hle := Instant.lag_add_lt hlt hdue hafter
  split at hle <;> omega

/-- How long a trickle timer that rings at `due` has been due.  An interval that ends counts once
more, as the decision of the next one may be due with it. -/
def Dodag.turnLag (d : Dodag) (due now : Instant) : Nat :=
  due.lag now + if d.phase = .jitter ∧ due ≤ now then 1 else 0

namespace Node

variable {ρ : Type} {p : Platform} {n m k : Node ρ} {i : InstanceId} {a : Address}
  {d d' : Dodag} {due due' now : Instant}

/-- A node whose alarms are those of one instance and of one neighbour in it. -/
structure Steady (p : Platform) (i : InstanceId) (a : Address) (n : Node ρ) (d : Dodag)
    (due : Instant) : Prop where
  find : n.dodags.find? i = some d
  paced : d.Paced p
  due : n.alarms.deadline? (.advertise i) = some due
  only : ∀ q e, n.alarms.deadline? q = some e →
    q = .advertise i ∨ q = .watch i a ∨ q = .probe i a

/-- Nothing about parents has changed. -/
structure SameRecords (n m : Node ρ) : Prop where
  tracks : n.SameTracks m
  samples : m.samples = n.samples
  missed : m.counts.windowsMissed = n.counts.windowsMissed
  probes : m.counts.probesSent = n.counts.probesSent

/-- What the trickle timer does when it rings. -/
inductive Turn (p : Platform) (i : InstanceId) (n m : Node ρ) (d d' : Dodag)
    (due due' : Instant) : Prop
  /-- It waits for the link-local address. -/
  | postponed : n.latchReady.mayAdvertise = false → d' = d → due' = due + p.postponeDelay →
      m.outbox = n.outbox → Turn p i n m d d' due due'
  /-- It decides whether to advertise, and waits for the end of the interval. -/
  | decided : n.latchReady.mayAdvertise = true → d.phase = .listen → d'.phase = .jitter →
      d'.lookahead = d.lookahead → d'.heard = d.heard → d'.params = d.params →
      due' = due + d.jitter →
      (d.heard < d.params.redundancy.toNat → n.outbox.hasRoom = true →
        m.outbox = n.outbox.offer (.dio i d.lookahead)) → Turn p i n m d d' due due'
  /-- It begins the interval that was announced. -/
  | ended : n.latchReady.mayAdvertise = true → d.phase = .jitter → d'.phase = .listen →
      d'.heard = 0 → d'.params = d.params → d'.exponent = d.nextExponent →
      due' = due + d.lookahead.listen → d'.jitter = d.lookahead.jitter → m.outbox = n.outbox →
      Turn p i n m d d' due due'

/-- An instance whose trickle timer has taken a turn: the timer is armed again, counted from the
deadline, and everything else is as before. -/
structure Turned (p : Platform) (i : InstanceId) (n m : Node ρ) (d d' : Dodag) (due : Instant)
    (after : Span) : Prop where
  turn : Turn p i n m d d' due (due + after)
  paced : d'.Paced p
  preferred : d'.preferred = d.preferred
  parents : d'.parents = d.parents
  dodags : ∀ j, m.dodags.find? j = if j = i then some d' else n.dodags.find? j
  alarms : m.alarms = (n.alarms.stop (.advertise i)).set (.advertise i) due after
  records : n.SameRecords m
  mayAdvertise : m.mayAdvertise = n.latchReady.mayAdvertise
  addressReady : m.addressReady = n.addressReady

variable [RandomSource ρ]

/-- The trickle timer of a joined instance takes a turn whenever it rings. -/
theorem turned_of_advertiseRings (hfind : n.dodags.find? i = some d) (hpaced : d.Paced p)
    (h : advertiseRings p { n with alarms := n.alarms.stop (.advertise i) } i due = .ok m) :
    ∃ d' after, Turned p i n m d d' due after := by
  have hrecords (hsamples : m.samples = n.samples)
      (hmissed : m.counts.windowsMissed = n.counts.windowsMissed)
      (hprobes : m.counts.probesSent = n.counts.probesSent) : n.SameRecords m :=
    ⟨(sameTracks_stop (by simp) (by simp)).trans (sameTracks_advertiseRings h), hsamples, hmissed,
      hprobes⟩
  rcases advertiseRings_eq_ok h with ⟨hready, k, hk, rfl⟩ | ⟨hready, ⟨hnone, -⟩ | ⟨e, he, h⟩⟩
  · obtain ⟨-, rfl⟩ := count_eq_ok hk
    refine ⟨d, p.postponeDelay, .postponed hready rfl rfl rfl, hpaced, rfl, rfl, fun j => ?_, rfl,
      hrecords rfl rfl rfl, rfl, rfl⟩
    split
    · rename_i hj
      rw [hj]
      exact hfind
    · rfl
  · rw [show n.dodags.find? i = none from hnone] at hfind
    cases hfind
  obtain rfl : d = e := Option.some.inj (hfind.symm.trans he)
  rcases h with ⟨hphase, h⟩ | ⟨hphase, h⟩
  · rcases takeDecision_eq_ok h with ⟨hheard, -, k, hk, rfl⟩ | ⟨hheard, -, rfl⟩
    · refine ⟨{ d with
        phase := .jitter
        counts := { d.counts with sent := d.counts.sent + 1 } }, d.jitter, ?_⟩
      rcases send_eq_ok hk with ⟨hroom, rfl⟩ | ⟨hroom, hk⟩
      · exact ⟨.decided hready hphase rfl rfl rfl rfl rfl fun _ _ => rfl, hpaced.decided, rfl, rfl,
          fun _ => Table.find?_insert, rfl, hrecords rfl rfl rfl, rfl, rfl⟩
      · obtain ⟨-, rfl⟩ := count_eq_ok hk
        refine ⟨.decided hready hphase rfl rfl rfl rfl rfl fun _ hroom' => ?_, hpaced.decided,
          rfl, rfl, fun _ => Table.find?_insert, rfl, hrecords rfl rfl rfl, rfl, rfl⟩
        exact absurd (hroom.symm.trans hroom') (by simp)
    · refine ⟨{ d with
        phase := .jitter
        counts := { d.counts with suppressed := d.counts.suppressed + 1 } }, d.jitter,
        .decided hready hphase rfl rfl rfl rfl rfl fun hlt _ => ?_, hpaced.decided, rfl, rfl,
        fun _ => Table.find?_insert, rfl, hrecords rfl rfl rfl, rfl, rfl⟩
      omega
  · have hjitter : d.phase = .jitter := by
      have hidle := hpaced.phase
      cases hd : d.phase <;> simp_all
    obtain ⟨split, d', source, hb, rfl⟩ := beginInterval_eq_ok (d := d.grow)
      (by simp [Node.putDodag]) h
    obtain ⟨hpending, -, hpaced', hexponent⟩ := hpaced.begin_grow hb
    obtain ⟨middle, next, -, -, -, -, hd'⟩ := Dodag.begin_eq_ok hb
    have hlisten : d.lookahead.listen = split.listen := by simp [Dodag.lookahead, hpending]
    have hjitter' : d'.jitter = d.lookahead.jitter := by
      rw [hd']
      simp [Dodag.lookahead, hpending]
    have hheard : d'.heard = 0 := by rw [hd']
    have hphase' : d'.phase = .listen := by rw [hd']
    have hparams : d'.params = d.params := by rw [hd', Dodag.grow_eq]
    refine ⟨d', split.listen,
      .ended hready hjitter hphase' hheard hparams hexponent (by rw [hlisten]) hjitter' rfl,
      hpaced', by rw [hd', Dodag.grow_eq], by rw [hd', Dodag.grow_eq], fun j => ?_, rfl,
      hrecords rfl rfl rfl, rfl, rfl⟩
    simp only [arm, emit, Node.putDodag, latchReady, Table.find?_insert]
    split <;> rfl

/-- The trickle timer of a steady node takes a turn and has no part in what is known about
parents. -/
theorem Steady.advertise (hs : n.Steady p i a d due)
    (h : advertiseRings p { n with alarms := n.alarms.stop (.advertise i) } i due = .ok m) :
    ∃ d' due', m.Steady p i a d' due' ∧ Turn p i n m d d' due due' ∧ n.SameRecords m ∧
      m.mayAdvertise = n.latchReady.mayAdvertise ∧ m.addressReady = n.addressReady := by
  obtain ⟨d', after, ht⟩ := turned_of_advertiseRings hs.find hs.paced h
  refine ⟨d', due + after, ⟨by rw [ht.dodags, if_pos rfl], ht.paced, by simp [ht.alarms], ?_⟩,
    ht.turn, ht.records, ht.mayAdvertise, ht.addressReady⟩
  intro q e hq
  by_cases hadvertise : q = .advertise i
  · exact .inl hadvertise
  · refine hs.only q e ?_
    simpa [ht.alarms, hadvertise] using hq

/-! ## Letting the alarms ring -/

theorem deadline?_armProbe (p : Platform) (k : Node ρ) (i : InstanceId) (a : Address)
    (now : Instant) : ∃ after : Span, 1 ≤ after.ticks ∧ ∀ q,
      (armProbe p k i a now).alarms.deadline? q =
        if q = .probe i a then some (now + after) else k.alarms.deadline? q := by
  obtain ⟨source, after, hafter, heq⟩ := armProbe_eq p k i a now
  refine ⟨after, hafter, ?_⟩
  intro q
  rw [heq]
  exact AlarmTable.deadline?_set

theorem Steady.armProbe (hs : n.Steady p i a d due) :
    (Node.armProbe p n i a now).Steady p i a d due := by
  obtain ⟨after, -, hdeadline⟩ := deadline?_armProbe p n i a now
  refine ⟨hs.find, hs.paced, ?_, ?_⟩
  · rw [hdeadline, if_neg (by simp)]
    exact hs.due
  · intro q e he
    rw [hdeadline] at he
    split at he
    · exact .inr (.inr ‹_›)
    · exact hs.only q e he

omit [RandomSource ρ] in
theorem Steady.stop {q : Purpose} (hs : n.Steady p i a d due) (hq : q ≠ .advertise i) :
    ({ n with alarms := n.alarms.stop q } : Node ρ).Steady p i a d due := by
  refine ⟨hs.find, hs.paced, ?_, ?_⟩
  · rw [AlarmTable.deadline?_stop, if_neg hq.symm]
    exact hs.due
  · intro q' e he
    rw [AlarmTable.deadline?_stop] at he
    split at he
    · cases he
    · exact hs.only q' e he

omit [RandomSource ρ] in
theorem Steady.congr (hs : n.Steady p i a d due) (hdodags : k.dodags = n.dodags)
    (halarms : k.alarms = n.alarms) : k.Steady p i a d due := by
  refine ⟨by rw [hdodags]; exact hs.find, hs.paced, by rw [halarms]; exact hs.due, ?_⟩
  rw [halarms]
  exact hs.only

omit [RandomSource ρ] in
/-- The records of parents have no part in this. -/
theorem Steady.of_parents {parents : Table Address Watch} (hs : n.Steady p i a d due)
    (hdodags : k.dodags = n.dodags.insert i { d with parents }) (halarms : k.alarms = n.alarms) :
    k.Steady p i a { d with parents } due := by
  have hd := hs.paced
  refine ⟨by rw [hdodags, Table.find?_insert, if_pos rfl], ?_, by rw [halarms]; exact hs.due, ?_⟩
  · exact ⟨hd.valid, hd.min_le, hd.le_max, hd.phase, hd.jitter_pos, hd.pending⟩
  · rw [halarms]
    exact hs.only

/-- How much is owed to an alarm, if it is armed. -/
def lag? (due : Option Instant) (now : Instant) : Nat := (due.map fun t => t.lag now).getD 0

@[simp] theorem lag?_none : lag? none now = 0 := rfl

@[simp] theorem lag?_some : lag? (some due) now = due.lag now := rfl

/-- How much is owed to the alarms of a steady node.  An interval that ends counts once more, as the
decision of the next one may be due with it. -/
def owed (n : Node ρ) (i : InstanceId) (a : Address) (d : Dodag) (due now : Instant) : Nat :=
  due.lag now + (if d.phase = .jitter ∧ due ≤ now then 1 else 0) +
    lag? (n.alarms.deadline? (.watch i a)) now + lag? (n.alarms.deadline? (.probe i a)) now

omit [RandomSource ρ] in
/-- A turn of the trickle timer lowers what is owed to it: the timer waits for at least one tick, or
an interval ends. -/
theorem Turn.turnLag_lt (ht : Turn p i n m d d' due due') (hpaced : d.Paced p) (hdue : due ≤ now)
    (hnow : now.ticks < maxTicks) (hpostpone : 1 ≤ p.postponeDelay.ticks) :
    d'.turnLag due' now < d.turnLag due now := by
  rw [Dodag.turnLag, Dodag.turnLag]
  cases ht with
  | postponed _ hd' hdue' =>
    subst hd' hdue'
    have hlt := Instant.lag_add_lt hnow hdue hpostpone
    simp only [hdue, and_true]
    split at hlt
    · simp only [*, and_true]
      omega
    · simp only [*, and_false, if_false]
      omega
  | decided _ hlisten _ _ _ _ hdue' =>
    subst hdue'
    have hlt := Instant.lag_add_lt hnow hdue hpaced.jitter_pos
    simp only [hlisten, reduceCtorEq, false_and, if_false]
    split at hlt
    · split <;> omega
    · simp only [*, and_false, if_false]
      omega
  | ended _ hjitter hlisten _ _ _ hdue' =>
    subst hdue'
    have hle := Instant.lag_add_le hnow due d.lookahead.listen
    simp only [hlisten, hjitter, hdue, reduceCtorEq, false_and, if_false, and_self, if_true]
    omega

omit [RandomSource ρ] in
theorem Turn.owed_lt (ht : Turn p i n m d d' due due') (hpaced : d.Paced p)
    (htracks : n.SameTracks m) (hdue : due ≤ now) (hnow : now.ticks < maxTicks)
    (hpostpone : 1 ≤ p.postponeDelay.ticks) : owed m i a d' due' now < owed n i a d due now := by
  have hwatch : m.alarms.deadline? (.watch i a) = n.alarms.deadline? (.watch i a) :=
    congrArg Track.closing (htracks i a)
  have hprobe : m.alarms.deadline? (.probe i a) = n.alarms.deadline? (.probe i a) :=
    congrArg Track.probing (htracks i a)
  have hlt := ht.turnLag_lt hpaced hdue hnow hpostpone
  rw [Dodag.turnLag, Dodag.turnLag] at hlt
  rw [owed, owed, hwatch, hprobe]
  omega

/-- An alarm about the neighbour that rings is exchanged for a later one at most. -/
theorem owed_alarm_lt {q : Purpose} {e : Instant} (hq : q = .watch i a ∨ q = .probe i a)
    (hd : n.alarms.deadline? q = some e) (hle : e ≤ now) (hnow : now.ticks < maxTicks)
    (halarms : k.alarms = n.alarms.stop q) (hphase : d'.phase = d.phase) :
    owed k i a d' due now < owed n i a d due now ∧
      owed (Node.armProbe p k i a e) i a d' due now < owed n i a d due now := by
  obtain ⟨after, hafter, harm⟩ := deadline?_armProbe p k i a e
  have hlag := Instant.lag_pos hle
  have hlt := Instant.lag_add_lt_lag hnow hle hafter
  simp only [owed, harm, halarms, AlarmTable.deadline?_stop, hphase]
  rcases hq with rfl | rfl
  all_goals
    simp only [if_true, reduceCtorEq, if_false, hd, lag?_none, lag?_some]
    omega

/-- Every alarm of a steady node that rings leaves it steady, and less is owed to its alarms. -/
theorem Steady.ring {r : Ring} {alarms : AlarmTable} (hs : n.Steady p i a d due)
    (hring : n.alarms.ring? now = some (r, alarms)) (hnow : now.ticks < maxTicks)
    (hpostpone : 1 ≤ p.postponeDelay.ticks) (h : handleRing p { n with alarms } r = .ok m) :
    ∃ d' due', m.Steady p i a d' due' ∧ owed m i a d' due' now < owed n i a d due now := by
  obtain ⟨hd, hle, rfl, -⟩ := AlarmTable.ring?_eq_some hring
  obtain ⟨q, e⟩ := r
  rcases hs.only q e hd with rfl | rfl | rfl
  · obtain rfl : due = e := Option.some.inj (hs.due.symm.trans hd)
    obtain ⟨d', due', hsteady, hturn, hsame, -, -⟩ := hs.advertise h
    exact ⟨d', due', hsteady, hturn.owed_lt hs.paced hsame.tracks hle hnow hpostpone⟩
  · have hstop := hs.stop (q := .watch i a) (by simp)
    rcases watchRings_eq_ok h with ⟨rfl, -⟩ | ⟨d', w, k, hd', -, -, hk, rfl⟩
    · exact ⟨d, due, hstop, (owed_alarm_lt (p := p) (.inl rfl) hd hle hnow rfl rfl).1⟩
    · obtain rfl : d = d' := Option.some.inj (hstop.find.symm.trans hd')
      obtain ⟨-, rfl⟩ := count_eq_ok hk
      exact ⟨_, due, Steady.armProbe (hstop.of_parents rfl rfl),
        (owed_alarm_lt (.inl rfl) hd hle hnow rfl rfl).2⟩
  · have hstop := hs.stop (q := .probe i a) (by simp)
    rcases probeRings_eq_ok h with ⟨rfl, -⟩ | ⟨-, -, k, hk, rfl⟩
    · exact ⟨d, due, hstop, (owed_alarm_lt (p := p) (.inr rfl) hd hle hnow rfl rfl).1⟩
    · obtain ⟨outbox, counts, trace, rfl⟩ := sendProbe_unchanged hk
      exact ⟨d, due, Steady.armProbe (hstop.congr rfl rfl),
        (owed_alarm_lt (.inr rfl) hd hle hnow rfl rfl).2⟩

omit [RandomSource ρ] in
theorem Steady.owed_pos {r : Ring} {alarms : AlarmTable} (hs : n.Steady p i a d due)
    (hring : n.alarms.ring? now = some (r, alarms)) : 0 < owed n i a d due now := by
  obtain ⟨hd, hle, -, -⟩ := AlarmTable.ring?_eq_some hring
  have hlag := Instant.lag_pos hle
  unfold owed
  rcases hs.only _ _ hd with hq | hq | hq <;> rw [hq] at hd
  · rw [Option.some.inj (hs.due.symm.trans hd)]
    omega
  all_goals
    rw [hd, lag?_some]
    omega

/-- The alarms of a steady node cost two counts each. -/
theorem Steady.ring_finishes {b : Nat} {r : Ring} {alarms : AlarmTable} (hs : n.Steady p i a d due)
    (hring : n.alarms.ring? now = some (r, alarms)) (hw : n.Within b) :
    Finishes (handleRing p { n with alarms } r) (b + 2) := by
  obtain ⟨hd, -, rfl, -⟩ := AlarmTable.ring?_eq_some hring
  have hstop : ({ n with alarms := n.alarms.stop r.purpose } : Node ρ).Within b :=
    ⟨hw.counts, hw.dodags, hw.purges⟩
  obtain ⟨q, e⟩ := r
  rcases hs.only q e hd with rfl | rfl | rfl
  · exact advertiseRings_finishes hstop
  · exact (watchRings_finishes hstop).mono (Nat.le_succ _)
  · exact probeRings_finishes hstop

/-- A steady node lets its alarms ring without a fault, as long as no counter is full. -/
theorem Steady.handleTimer_finishes {b : Nat} (hs : n.Steady p i a d due) (hw : n.Within b)
    (hready : ∀ q e, n.alarms.deadline? q = some e → now ≤ e) (hnow : now.ticks < maxTicks)
    (hpostpone : 1 ≤ p.postponeDelay.ticks) :
    (handleTimer p n now).FinishesBelow (b + 8) ∧ ∀ m, handleTimer p n now = .ok m →
      m.Within (b + 8) ∧ ∃ d' due', m.Steady p i a d' due' := by
  have hlag (e : Instant) (he : now ≤ e) : e.lag now ≤ 1 := by
    rw [Instant.le_iff] at he
    simp only [Instant.lag, Instant.le_iff]
    split <;> omega
  have howed : owed n i a d due now ≤ 4 := by
    have hdue := hlag due (hready _ _ hs.due)
    have halarm (q : Purpose) : lag? (n.alarms.deadline? q) now ≤ 1 := by
      cases hq : n.alarms.deadline? q with
      | none => simp
      | some e => exact hlag e (hready q e hq)
    have hwatch := halarm (.watch i a)
    have hprobe := halarm (.probe i a)
    unfold owed
    split <;> omega
  have hbudget : 4 ≤ n.ringBudget now := by
    have hmem := Table.find?_eq_some_iff.1 hs.find
    have hsize : 1 ≤ n.dodags.size := List.length_pos_of_mem hmem
    have hmul : 2 * (1 + 4 * 1) * 1 ≤ 2 * (1 + 4 * n.dodags.size) * (now.ticks + 1) :=
      Nat.mul_le_mul (by omega) (by omega)
    exact (by omega : 4 ≤ 2 * (1 + 4 * 1) * 1).trans hmul
  have hstep (c : Nat) (n : Node ρ) (r : Ring) (alarms : AlarmTable)
      (hI : c ≤ 4 ∧ n.Within (b + 8 - 2 * c) ∧
        ∃ d due, n.Steady p i a d due ∧ owed n i a d due now ≤ c)
      (hring : n.alarms.ring? now = some (r, alarms)) :
      ∃ c' < c, (handleRing p { n with alarms } r).FinishesBelow (b + 8) ∧
        ∀ m, handleRing p { n with alarms } r = .ok m → c' ≤ 4 ∧ m.Within (b + 8 - 2 * c') ∧
          ∃ d due, m.Steady p i a d due ∧ owed m i a d due now ≤ c' := by
    obtain ⟨hc, hwithin, d, due, hs, howed⟩ := hI
    have hpos := hs.owed_pos hring
    have hfinish := hs.ring_finishes hring hwithin
    refine ⟨c - 1, by omega, hfinish.1.mono (by omega), ?_⟩
    intro m hm
    obtain ⟨d', due', hsteady, hlt⟩ := hs.ring hring hnow hpostpone hm
    exact ⟨by omega, (hfinish.2 m hm).mono (by omega), d', due', hsteady, by omega⟩
  have hloop :=
    ringAll_finishes hstep ⟨Nat.le_refl 4, hw.mono (by omega), d, due, hs, howed⟩ hbudget
  refine ⟨hloop.1, ?_⟩
  intro m hm
  obtain ⟨c, -, hwithin, d', due', hsteady, -⟩ := hloop.2 m hm
  exact ⟨hwithin.mono (by omega), d', due', hsteady⟩

end Node

end TrickleNet
