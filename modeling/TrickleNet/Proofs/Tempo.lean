import Mathlib
import TrickleNet.Proofs.Trickle
/-!
# The tempo of a trickle timer

Left to itself a trickle timer keeps a fixed pace: `TrickleParams.startAt` is when each of its
intervals starts, counted from the instant at which the instance was joined.  Alarms are handled as
of their own deadlines, so the pace does not depend on when they are noticed (`OnTime`), and after a
call that lets alarms ring the timer is in the last interval that has started by then
(`cadence_has_no_drift`).

A deadline below the last instant is exact, since the sum that gave it was not clamped.  That the
deadlines of all alarms that ring lie below the times of later calls is `Run.answered`.
-/

namespace TrickleNet

namespace TrickleParams

variable {params : TrickleParams} {p : Platform} {t₀ j k : Nat}

/-- The exponent of the `k`-th interval after the first one. -/
def exponentAt (params : TrickleParams) (k : Nat) : Nat :=
  min (params.minExponent.toNat + k) (params.minExponent.toNat + params.doublings.toNat)

/-- How many ticks that interval lasts. -/
def lengthAt (params : TrickleParams) (p : Platform) (k : Nat) : Nat :=
  (intervalSpan p (params.exponentAt k)).ticks

/-- At which tick that interval starts, if the first one starts at `t₀`. -/
def startAt (params : TrickleParams) (p : Platform) (t₀ k : Nat) : Nat :=
  t₀ + ∑ m ∈ Finset.range k, params.lengthAt p m

@[simp] theorem startAt_zero : params.startAt p t₀ 0 = t₀ := by simp [startAt]

theorem startAt_succ :
    params.startAt p t₀ (k + 1) = params.startAt p t₀ k + params.lengthAt p k := by
  rw [startAt, startAt, Finset.sum_range_succ, Nat.add_assoc]

theorem lengthAt_pos (params : TrickleParams) (p : Platform) (k : Nat) : 1 ≤ params.lengthAt p k :=
  intervalSpan_pos p _

theorem startAt_strictMono : StrictMono (params.startAt p t₀) := by
  refine strictMono_nat_of_lt_succ fun k => ?_
  have hpos := lengthAt_pos params p k
  rw [startAt_succ]
  omega

/-- The intervals that have started by a tick are those up to the last of them. -/
theorem ncard_startAt_le {M : Nat} (hle : params.startAt p t₀ k ≤ M)
    (hlt : M < params.startAt p t₀ (k + 1)) : {j | params.startAt p t₀ j ≤ M}.ncard = k + 1 := by
  have hset : {j | params.startAt p t₀ j ≤ M} = ↑(Finset.range (k + 1)) := by
    ext j
    rw [Finset.mem_coe, Finset.mem_range]
    constructor
    · intro (hj : params.startAt p t₀ j ≤ M)
      exact startAt_strictMono.lt_iff_lt.1 (hj.trans_lt hlt)
    · intro hj
      exact (startAt_strictMono.monotone (Nat.le_of_lt_succ hj)).trans hle
  rw [hset, Set.ncard_coe_finset, Finset.card_range]

end TrickleParams

namespace Node

variable {ρ : Type} {p : Platform} {n n₀ k : Node ρ} {x s : Moment ρ} {i : InstanceId} {t : Timer}
  {ms rs : List (Moment ρ)} {params : TrickleParams}

/-- When an event counts as happening: an alarm counts as of its deadline. -/
def Event.instant : Event → Instant
  | .request _ now => now
  | .ring r => r.deadline
  | .settled now => now

/-- The ticks at which intervals of an instance begin. -/
def starts (i : InstanceId) (ms : List (Moment ρ)) : List Nat :=
  (ms.filter (·.begins i)).map fun x => x.event.instant.ticks

/-- The time of the call that an event closes, if it closes one. -/
def Event.call? : Event → Option Nat
  | .settled now => some now.ticks
  | _ => none

/-- The times of the calls that let alarms ring. -/
def calls (ms : List (Moment ρ)) : List Nat := ms.filterMap fun x => x.event.call?

/-! ## Alarms ring no later than calls come -/

/-- Every alarm that rings does so in a call whose time is not before its deadline. -/
def Answered : List (Moment ρ) → Prop
  | [] => True
  | x :: ms => (∀ r, x.event = .ring r → ∃ c ∈ calls ms, r.deadline.ticks ≤ c) ∧ Answered ms

theorem calls_append : calls (ms ++ rs) = calls ms ++ calls rs := List.filterMap_append

theorem Answered.append (h : Answered ms) (h' : Answered rs) : Answered (ms ++ rs) := by
  induction ms with
  | nil => exact h'
  | cons x ms ih =>
    refine ⟨fun r hr => ?_, ih h.2⟩
    obtain ⟨c, hc, hle⟩ := h.1 r hr
    have hmem : c ∈ calls (ms ++ rs) := by
      rw [calls_append]
      exact List.mem_append_left _ hc
    exact ⟨c, hmem, hle⟩

theorem Answered.of_append (h : Answered (ms ++ rs)) : Answered rs := by
  induction ms with
  | nil => exact h
  | cons x ms ih => exact ih h.2

theorem Answered.le_call (h : Answered ms) (hx : x ∈ ms) {r : Ring} (hr : x.event = .ring r) :
    ∃ c ∈ calls ms, r.deadline.ticks ≤ c := by
  induction ms with
  | nil => cases hx
  | cons y ms ih =>
    have hcalls {c : Nat} (hc : c ∈ calls ms) : c ∈ calls (y :: ms) := by
      rw [← List.singleton_append, calls_append]
      exact List.mem_append_right _ hc
    rcases List.mem_cons.1 hx with rfl | hx
    · obtain ⟨c, hc, hle⟩ := h.1 r hr
      exact ⟨c, hcalls hc, hle⟩
    · obtain ⟨c, hc, hle⟩ := ih h.2 hx
      exact ⟨c, hcalls hc, hle⟩

variable [RandomSource ρ]

theorem Rings.answered {now : Instant} (h : Rings p now n ms k) :
    Answered ms ∧ now.ticks ∈ calls ms := by
  induction h with
  | settled => exact ⟨⟨fun r hr => (by cases hr), trivial⟩, List.mem_cons_self⟩
  | ring hring _ _ ih =>
    obtain ⟨hanswered, hmem⟩ := ih
    obtain ⟨-, hle, -⟩ := AlarmTable.ring?_eq_some hring
    refine ⟨⟨fun r hr => ?_, hanswered⟩, hmem⟩
    obtain rfl := Event.ring.inj hr
    exact ⟨_, hmem, hle⟩

theorem Run.answered (h : Run p n₀ ms n) : Answered ms := by
  induction h with
  | start => trivial
  | request _ _ _ ih => exact ih.append ⟨fun r hr => (by cases hr), trivial⟩
  | timer _ hrings ih => exact ih.append hrings.answered.1
  | outside _ _ ih => exact ih

/-! ## A timer on time -/

omit [RandomSource ρ] in
/-- A timer that is in the `k`-th interval after the first one, with its alarm set as its pace asks
for.  The first interval began with the event `s`, and `ms` is the record since. -/
structure OnTime (p : Platform) (i : InstanceId) (params : TrickleParams) (t₀ : Nat) (s : Moment ρ)
    (ms : List (Moment ρ)) (k : Nat) (t : Timer) : Prop where
  params_eq : t.state.params = params
  timed : t.state.Timed p
  intervals : t.state.counts.intervals = k + 1
  exponent : t.state.exponent = params.exponentAt k
  due : ∃ e, t.due = some e ∧
    ((t.state.phase = .listen ∧ ∃ split : Split, split.Divides (intervalSpan p t.state.exponent) ∧
        split.jitter = t.state.jitter ∧
        e.ticks = min (params.startAt p t₀ k + split.listen.ticks) maxTicks) ∨
      (t.state.phase = .jitter ∧ e.ticks = min (params.startAt p t₀ (k + 1)) maxTicks))
  starts_eq : starts i (s :: ms) = (List.range (k + 1)).map (params.startAt p t₀)
  decisions : ms.countP (·.decides i) + (if t.state.phase = .listen then 1 else 0) = k + 1
  calls_lt : ∀ c ∈ calls ms, c < params.startAt p t₀ (k + 1)
  /-- An interval after the first one began when the alarm rang at its start. -/
  rang : k = 0 ∨ ∃ x ∈ ms, ∃ r, x.event = .ring r ∧ r.deadline.ticks = params.startAt p t₀ k

variable {t₀ j : Nat} {e : Instant}

omit [RandomSource ρ] in
theorem starts_concat (s x : Moment ρ) (ms : List (Moment ρ)) :
    starts i (s :: (ms ++ [x])) =
      starts i (s :: ms) ++ if x.begins i then [x.event.instant.ticks] else [] := by
  rw [starts, starts, ← List.cons_append, List.filter_append, List.map_append,
    List.filter_singleton]
  cases x.begins i <;> rfl

omit [RandomSource ρ] in
/-- An alarm that is still to ring is due before the interval after its own ends. -/
theorem OnTime.due_lt (h : OnTime p i params t₀ s ms j t) (he : t.due = some e) :
    e.ticks ≤ params.startAt p t₀ (j + 1) := by
  obtain ⟨e', he', hcase⟩ := h.due
  obtain rfl := Option.some.inj (he.symm.trans he')
  rcases hcase with ⟨-, split, hdivides, -, heq⟩ | ⟨-, heq⟩
  · have hlt := hdivides.listen_lt
    rw [h.exponent] at hlt
    have hlength : split.listen.ticks < params.lengthAt p j := hlt
    rw [TrickleParams.startAt_succ]
    omega
  · omega

/-- A call that lets no alarm ring comes before any of them is due. -/
theorem Moment.Valid.call_lt_deadline {q : Purpose} (hx : x.Valid p)
    (hdue : x.before.alarms.deadline? q = some e) : ∀ c ∈ calls [x], c < e.ticks := by
  intro c hc
  cases hx with
  | request => cases hc
  | ring => cases hc
  | settled hnone =>
    obtain rfl := List.mem_singleton.1 hc
    exact AlarmTable.ring?_eq_none_iff.1 hnone _ _ hdue

theorem Moment.Valid.call_lt (hx : x.Valid p) (ht : x.before.timer? i = some t)
    (he : t.due = some e) : ∀ c ∈ calls [x], c < e.ticks := by
  obtain ⟨d, -, rfl⟩ := find?_of_timer? ht
  exact hx.call_lt_deadline he

/-- Calls that let alarms ring have not come past the end of the interval. -/
theorem OnTime.calls_concat (h : OnTime p i params t₀ s ms j t) (ht : x.before.timer? i = some t)
    (hx : x.Valid p) : ∀ c ∈ calls (ms ++ [x]), c < params.startAt p t₀ (j + 1) := by
  intro c hc
  rw [calls_append] at hc
  rcases List.mem_append.1 hc with hc | hc
  · exact h.calls_lt c hc
  · obtain ⟨e, he, -⟩ := h.due
    exact (hx.call_lt ht he c hc).trans_le (h.due_lt he)

omit [RandomSource ρ] in
theorem OnTime.rang_concat (h : OnTime p i params t₀ s ms j t) (x : Moment ρ) :
    j = 0 ∨ ∃ y ∈ ms ++ [x], ∃ r, y.event = .ring r ∧ r.deadline.ticks = params.startAt p t₀ j := by
  rcases h.rang with hzero | ⟨y, hy, hring⟩
  · exact .inl hzero
  · exact .inr ⟨y, List.mem_append_left _ hy, hring⟩

/-- A consistent advertisement that is noted does not change the pace. -/
theorem OnTime.idle {b : Bool} (h : OnTime p i params t₀ s ms j t) (ht : x.before.timer? i = some t)
    (hx : x.Valid p) (hbegins : x.begins i = false) (hdecides : x.decides i = false) :
    OnTime p i params t₀ s (ms ++ [x]) j
      { t with state := if b then t.state.hear else t.state } := by
  have hstarts : starts i (s :: (ms ++ [x])) = (List.range (j + 1)).map (params.startAt p t₀) := by
    rw [starts_concat, hbegins, h.starts_eq]
    exact List.append_nil _
  have hdecisions : (ms ++ [x]).countP (·.decides i) = ms.countP (·.decides i) := by
    rw [List.countP_append, List.countP_singleton, hdecides]
    rfl
  have hcalls := h.calls_concat ht hx
  have hrang := h.rang_concat x
  cases b
  · exact ⟨h.params_eq, h.timed, h.intervals, h.exponent, h.due, hstarts,
      hdecisions ▸ h.decisions, hcalls, hrang⟩
  · exact ⟨h.params_eq, h.timed.hear, h.intervals, h.exponent, h.due, hstarts,
      hdecisions ▸ h.decisions, hcalls, hrang⟩

/-- At its decision the timer is set for the end of the interval. -/
theorem OnTime.decide (h : OnTime p i params t₀ s ms j t) (ht : x.before.timer? i = some t)
    (hx : x.Valid p) (hbegins : x.begins i = false) (hdecides : x.decides i = true)
    (hphase : t.state.phase = .listen) (hdue : t.due = some e) (hlast : e.ticks < maxTicks) :
    OnTime p i params t₀ s (ms ++ [x]) j ⟨t.state.decided, some (e + t.state.jitter)⟩ where
  params_eq := h.params_eq
  timed := h.timed.decided
  intervals := by
    rw [← h.intervals]
    simp only [Dodag.decided]
    split <;> rfl
  exponent := h.exponent
  due := by
    obtain ⟨e', he', ⟨-, split, hdivides, hjitter, heq⟩ | ⟨hwait, -⟩⟩ := h.due
    · obtain rfl := Option.some.inj (hdue.symm.trans he')
      refine ⟨_, rfl, .inr ⟨rfl, ?_⟩⟩
      have htotal := hdivides.total
      rw [h.exponent] at htotal
      have hlength : split.listen.ticks + split.jitter.ticks = params.lengthAt p j := htotal
      rw [Instant.ticks_add, TrickleParams.startAt_succ, ← hjitter]
      omega
    · rw [hphase] at hwait
      cases hwait
  starts_eq := by
    rw [starts_concat, hbegins, h.starts_eq]
    exact List.append_nil _
  decisions := by
    have hcount := h.decisions
    rw [if_pos hphase] at hcount
    rw [List.countP_append, List.countP_singleton, hdecides, ← hcount]
    rfl
  calls_lt := h.calls_concat ht hx
  rang := h.rang_concat x

/-- At the end of an interval the next one begins. -/
theorem OnTime.next {split : Split} {d : Dodag} {source source' : ρ}
    (h : OnTime p i params t₀ s ms j t) (ht : x.before.timer? i = some t) (hx : x.Valid p)
    (hbegins : x.begins i = true) (hdecides : x.decides i = false)
    (hphase : t.state.phase ≠ .listen) (hdue : t.due = some e)
    (hevent : x.event = .ring ⟨.advertise i, e⟩)
    (hlast : e.ticks < maxTicks) (hbegin : t.state.grow.begin p source = .ok (split, d, source')) :
    OnTime p i params t₀ s (ms ++ [x]) (j + 1) ⟨d, some (e + split.listen)⟩ := by
  obtain ⟨-, hdivides, -, hexponent⟩ := h.timed.toPaced.begin_grow hbegin
  obtain ⟨middle, next, -, -, -, -, hd⟩ := Dodag.begin_eq_ok hbegin
  have hparams : d.params = params := by
    rw [hd, Dodag.grow_eq]
    exact h.params_eq
  have hgrown : d.exponent = params.exponentAt (j + 1) := by
    rw [hexponent, h.timed.toPaced.nextExponent_eq, h.exponent, h.params_eq]
    simp only [TrickleParams.exponentAt]
    omega
  have hstart : e.ticks = params.startAt p t₀ (j + 1) := by
    obtain ⟨e', he', ⟨hlisten, -⟩ | ⟨-, heq⟩⟩ := h.due
    · exact absurd hlisten hphase
    · obtain rfl := Option.some.inj (hdue.symm.trans he')
      omega
  refine ⟨hparams, h.timed.begin_grow hbegin, ?_, hgrown,
    ⟨_, rfl, .inl ⟨?_, split, ?_, ?_, ?_⟩⟩, ?_, ?_, ?_,
    .inr ⟨x, List.mem_append_right _ List.mem_cons_self, _, hevent, hstart⟩⟩
  · rw [hd, Dodag.grow_eq, ← h.intervals]
  · exact phase_of_begin hbegin
  · rw [hexponent]
    exact hdivides
  · rw [hd]
  · rw [Instant.ticks_add, hstart]
  · have hinstant : x.event.instant.ticks = params.startAt p t₀ (j + 1) := by
      rw [hevent]
      exact hstart
    have hrange : List.range (j + 1 + 1) = List.range (j + 1) ++ [j + 1] := List.range_succ
    rw [starts_concat, hbegins, h.starts_eq, hinstant, hrange, List.map_append]
    rfl
  · have hcount := h.decisions
    rw [if_neg hphase] at hcount
    rw [List.countP_append, List.countP_singleton, hdecides, if_pos (phase_of_begin hbegin),
      ← hcount]
    rfl
  · intro c hc
    exact (h.calls_concat ht hx c hc).trans (TrickleParams.startAt_strictMono (Nat.lt_succ_self _))

/-- What an alarm of the instance needs for the timer to stay on time. -/
def Moment.Prompt (x : Moment ρ) (i : InstanceId) : Prop :=
  ∀ due, x.event.signal? i = some (.ring due) →
    due.ticks < maxTicks ∧ x.before.latchReady.mayAdvertise = true

/-- Whatever happens except a reset or a leave, the timer stays on time. -/
theorem OnTime.snoc (h : OnTime p i params t₀ s ms j t) (ht : x.before.timer? i = some t)
    (hx : x.Valid p) (hprompt : x.Prompt i) (hreset : x.resets i = false)
    (hleave : x.leaves i = false) :
    ∃ t', x.after.timer? i = some t' ∧ ∃ j', OnTime p i params t₀ s (ms ++ [x]) j' t' := by
  cases hx.course ht with
  | idle _ _ _ hbegins hdecides hafter =>
    exact ⟨_, hafter, j, h.idle ht hx hbegins hdecides⟩
  | postponed hsignal _ hnot =>
    rw [(hprompt _ hsignal).2] at hnot
    cases hnot
  | decided hsignal hdue _ hphase hbegins hdecides hafter =>
    exact ⟨_, hafter, j, h.decide ht hx hbegins hdecides hphase hdue (hprompt _ hsignal).1⟩
  | ended hsignal hdue _ hphase hbegins hdecides hbegin hafter =>
    exact ⟨_, hafter, j + 1, h.next ht hx hbegins hdecides hphase hdue
      (Event.eq_ring_of_signal? hsignal) (hprompt _ hsignal).1 hbegin⟩
  | reset _ hyes =>
    rw [hreset] at hyes
    cases hyes
  | left hsignal =>
    rw [Moment.leaves, hsignal] at hleave
    cases hleave

/-- A timer is on time as long as its alarms are prompt and it is neither reset nor left. -/
theorem Trail.onTime (h : Trail p n ms k) (ht : n.timer? i = some t)
    (hms : ∀ x ∈ ms, x.Prompt i ∧ x.resets i = false ∧ x.leaves i = false)
    (hstart : OnTime p i params t₀ s [] 0 t) :
    ∃ t', k.timer? i = some t' ∧ ∃ j, OnTime p i params t₀ s ms j t' := by
  refine Trail.timer_induction (motive := fun ms t => ∃ j, OnTime p i params t₀ s ms j t)
    ⟨0, hstart⟩ ?_ h ht hms
  rintro ms x t hx ⟨hprompt, hreset, hleave⟩ ht ⟨j, hontime⟩
  exact hontime.snoc ht hx hprompt hreset hleave

/-- An instance that is joined starts on time. -/
theorem onTime_of_joins {now : Instant} (hs : s.Valid p)
    (hevent : s.event = .request (.join i params) now) (hjoins : s.joins i = true) :
    ∃ t, s.after.timer? i = some t ∧ OnTime p i params now.ticks s [] 0 t := by
  simp only [Moment.joins, Bool.and_eq_true, Bool.not_eq_true', contains_eq,
    Option.isSome_iff_exists, Option.isSome_eq_false_iff, Option.isNone_iff_eq_none] at hjoins
  obtain ⟨hnone, t, ht⟩ := hjoins
  obtain ⟨params', now', split, source, source', hsignal, hvalid, hbegin, hdue, -, hbegins⟩ :=
    hs.joined hnone ht
  rw [hevent, Event.signal?, if_pos rfl] at hsignal
  obtain ⟨rfl, rfl⟩ := Signal.join.inj (Option.some.inj hsignal)
  obtain ⟨middle, next, -, -, -, -, hd⟩ := Dodag.begin_eq_ok hbegin
  have hexponent : t.state.exponent = params.exponentAt 0 := by
    rw [hd]
    simp [Dodag.restart, Dodag.new, TrickleParams.exponentAt]
  have hphase : t.state.phase = .listen := phase_of_begin hbegin
  refine ⟨t, ht, ?_, Dodag.timed_restart hbegin hvalid, ?_, hexponent,
    ⟨_, hdue, .inl ⟨hphase, split, ?_, ?_, ?_⟩⟩, ?_, ?_, fun c hc => absurd hc List.not_mem_nil,
    .inl rfl⟩
  · rw [hd]
    rfl
  · rw [hd]
    rfl
  · rw [hd]
    exact Dodag.divides_restart hbegin
  · rw [hd]
  · rw [Instant.ticks_add, TrickleParams.startAt_zero]
  · simp [starts, hbegins, hevent, Event.instant]
  · rw [if_pos hphase]
    rfl

/-- Once the address was usable when the timer rang, later alarms of it are not put off. -/
theorem Trail.ready_of_first (h : Trail p n ms k)
    (hfirst : ∀ x, ms.find? (·.fires i) = some x → x.before.latchReady.mayAdvertise = true) :
    ∀ x ∈ ms, x.fires i = true → x.before.latchReady.mayAdvertise = true := by
  intro x hx hfires
  cases hfind : ms.find? (·.fires i) with
  | none => exact absurd hfires (List.find?_eq_none.1 hfind x hx)
  | some y =>
    have hready := hfirst y hfind
    obtain ⟨hy, before, after, rfl, hnot⟩ := List.find?_eq_some_iff_append.1 hfind
    obtain ⟨-, hvalid, htrail⟩ := h.cut
    obtain ⟨due, hsignal⟩ := Moment.exists_ring_of_fires hy
    -- The node remembers the address once the timer has rung.
    have hlatched := (hvalid.turns.latched i due hsignal).trans hready
    rcases List.mem_append.1 hx with hx | hx
    · have hquiet := hnot x hx
      rw [hfires] at hquiet
      cases hquiet
    rcases List.mem_cons.1 hx with rfl | hx
    · exact hready
    · rw [latchReady, htrail.mayAdvertise hlatched x hx]
      rfl

/-- A decision that is taken on time is due in the second half of its interval. -/
theorem OnTime.decision_within (h : OnTime p i params t₀ s ms j t) (ht : x.before.timer? i = some t)
    (hx : x.Valid p) (hprompt : x.Prompt i) (hdecides : x.decides i = true) :
    params.startAt p t₀ j + params.lengthAt p j / 2 ≤ x.event.instant.ticks ∧
      x.event.instant.ticks < params.startAt p t₀ j + params.lengthAt p j := by
  obtain ⟨e, hsignal, hdue, -, hphase, -⟩ := (hx.course ht).of_decides hdecides
  have hlast := (hprompt e hsignal).1
  have hevent : x.event.instant = e := congrArg Event.instant (Event.eq_ring_of_signal? hsignal)
  obtain ⟨e', he', ⟨-, split, hdivides, -, heq⟩ | ⟨hwait, -⟩⟩ := h.due
  · obtain rfl := Option.some.inj (hdue.symm.trans he')
    have hhalf := hdivides.half_le
    have hlt := hdivides.listen_lt
    rw [h.exponent] at hhalf hlt
    change params.lengthAt p j / 2 ≤ split.listen.ticks at hhalf
    change split.listen.ticks < params.lengthAt p j at hlt
    rw [hevent]
    omega
  · rw [hphase] at hwait
    cases hwait

omit [RandomSource ρ] in
/-- The intervals that have begun are those that start by the time of the latest call. -/
theorem OnTime.ncard_startAt {M : Nat} (h : OnTime p i params t₀ s ms j t) (hanswered : Answered ms)
    (hstart : t₀ ≤ M) (hle : ∀ c ∈ calls ms, c ≤ M) (hM : M = t₀ ∨ M ∈ calls ms) :
    {k | params.startAt p t₀ k ≤ M}.ncard = j + 1 := by
  apply TrickleParams.ncard_startAt_le
  · rcases h.rang with rfl | ⟨x, hx, r, hring, hdeadline⟩
    · rw [TrickleParams.startAt_zero]
      exact hstart
    · obtain ⟨c, hc, hbefore⟩ := hanswered.le_call hx hring
      rw [← hdeadline]
      exact hbefore.trans (hle c hc)
  · rcases hM with rfl | hM
    · calc M = params.startAt p M 0 := TrickleParams.startAt_zero.symm
        _ < params.startAt p M (j + 1) := TrickleParams.startAt_strictMono (Nat.succ_pos j)
    · exact h.calls_lt M hM

/-! ## Runs -/

/-- An instance that is joined at `t₀`, and whose timer first rings on a node with a usable address,
keeps its pace however late its alarms are noticed, as long as it is neither reset nor left.  Its
`k`-th interval starts exactly at `startAt`; its decision is due in the second half of it; and once
the latest call that let alarms ring came at `M`, as many intervals have begun as start by then.
Calls before the instance was joined are of no matter, so `M` may be `t₀` itself. -/
theorem cadence_has_no_drift {source : ρ} {clock t₀ : Instant} {ready : Bool}
    {pre : List (Moment ρ)} (hrun : Run p (.new source clock ready) (pre ++ s :: ms) n)
    (hjoin : s.event = .request (.join i params) t₀) (hjoins : s.joins i = true)
    (hms : ∀ x ∈ ms, x.resets i = false ∧ x.leaves i = false)
    (hready : ∀ x, ms.find? (·.fires i) = some x → x.before.latchReady.mayAdvertise = true)
    (hcalls : ∀ c ∈ calls ms, c < maxTicks) :
    ∃ d, n.dodags.find? i = some d ∧
      starts i (s :: ms) = (List.range d.counts.intervals).map (params.startAt p t₀.ticks) ∧
      (∀ a x b, ms = a ++ x :: b → x.decides i = true →
        ∃ k, (starts i (s :: a)).length = k + 1 ∧
          params.startAt p t₀.ticks k + params.lengthAt p k / 2 ≤ x.event.instant.ticks ∧
          x.event.instant.ticks < params.startAt p t₀.ticks k + params.lengthAt p k) ∧
      ms.countP (·.decides i) + (if d.phase = .listen then 1 else 0) = d.counts.intervals ∧
      ∀ M, t₀.ticks ≤ M → (∀ c ∈ calls ms, c ≤ M) → (M = t₀.ticks ∨ M ∈ calls ms) →
        {k | params.startAt p t₀.ticks k ≤ M}.ncard = d.counts.intervals := by
  obtain ⟨-, hs, htrail⟩ := hrun.trail.cut
  obtain ⟨t, ht, hstart⟩ := onTime_of_joins hs hjoin hjoins
  have hanswered : Answered ms := hrun.answered.of_append.2
  have hlatched := htrail.ready_of_first hready
  have hprompt (x : Moment ρ) (hx : x ∈ ms) :
      x.Prompt i ∧ x.resets i = false ∧ x.leaves i = false := by
    refine ⟨fun due hsignal => ?_, hms x hx⟩
    obtain ⟨c, hc, hle⟩ := hanswered.le_call hx (Event.eq_ring_of_signal? hsignal)
    exact ⟨hle.trans_lt (hcalls c hc), hlatched x hx (Moment.fires_of_ring hsignal)⟩
  obtain ⟨t', ht', j, hontime⟩ := htrail.onTime ht hprompt hstart
  obtain ⟨d, hd, rfl⟩ := find?_of_timer? ht'
  have hintervals : d.counts.intervals = j + 1 := hontime.intervals
  refine ⟨d, hd, hintervals ▸ hontime.starts_eq, ?_, hintervals ▸ hontime.decisions, ?_⟩
  · rintro a x b rfl hdecides
    obtain ⟨ha, hx, -⟩ := htrail.cut
    obtain ⟨u, hu, k, hbefore⟩ :=
      ha.onTime ht (fun y hy => hprompt y (List.mem_append_left _ hy)) hstart
    refine ⟨k, ?_, hbefore.decision_within hu hx (hprompt x ?_).1 hdecides⟩
    · rw [hbefore.starts_eq, List.length_map, List.length_range]
    · exact List.mem_append_right _ List.mem_cons_self
  · intro M hstart hle hM
    rw [hintervals]
    exact hontime.ncard_startAt hanswered hstart hle hM

/-- Requests to a node that lets its alarms ring before it joins an instance at the twentieth
millisecond, hears an advertisement, and then notices its alarms late, twice in one call. -/
def joinedLater : List (Operation × Instant) :=
  [(.handleTimer, .ofTicks 10), (.join 1 { minExponent := 3, doublings := 1 }, .ofTicks 20),
    (.command (.dioConsistent 1), .ofTicks 21), (.handleTimer, .ofTicks 26),
    (.handleTimer, .ofTicks 70)]

/-- The first interval lasts 8 ms and the others 16 ms each, so they start at 20, 28, 44 and 60. -/
theorem cadence_has_no_drift_noticed_late :
    ∃ (pre ms : List (Moment Generator)) (s : Moment Generator) (n : Node Generator) (d : Dodag),
      record .millis joinedLater (.new (.fixed 0) .zero true) = .ok (pre ++ s :: ms, n) ∧
      s.joins 1 = true ∧ calls ms = [26, 70] ∧ n.dodags.find? 1 = some d ∧
      d.counts.intervals = 4 ∧ starts 1 (s :: ms) = [20, 28, 44, 60] ∧
      {k | TrickleParams.startAt { minExponent := 3, doublings := 1 } .millis 20 k ≤ 70}.ncard =
        4 := by
  obtain ⟨pre, ms, s, n, d, hrecord, hevent, hjoins, hms, hready, hcalls, hd, hintervals⟩ :
      ∃ (pre ms : List (Moment Generator)) (s : Moment Generator) (n : Node Generator) (d : Dodag),
        record .millis joinedLater (.new (.fixed 0) .zero true) = .ok (pre ++ s :: ms, n) ∧
        s.event =
          .request (.join 1 { minExponent := 3, doublings := 1 }) (.ofTicks 20) ∧
        s.joins 1 = true ∧ (∀ x ∈ ms, x.resets 1 = false ∧ x.leaves 1 = false) ∧
        (∀ x, ms.find? (·.fires 1) = some x → x.before.latchReady.mayAdvertise = true) ∧
        calls ms = [26, 70] ∧ n.dodags.find? 1 = some d ∧ d.counts.intervals = 4 :=
    ⟨[_], [_, _, _, _, _, _, _, _, _, _], _, _, _, rfl, rfl, rfl, by decide,
      fun x hx => by cases hx; rfl, rfl, rfl, rfl⟩
  have hrun : Run .millis (.new (Generator.fixed 0) .zero true) (pre ++ s :: ms) n :=
    Run.start.record hrecord
  obtain ⟨d', hd', hstarts, -, -, hcount⟩ :=
    cadence_has_no_drift hrun hevent hjoins hms hready (by rw [hcalls]; decide)
  obtain rfl := Option.some.inj (hd.symm.trans hd')
  rw [hintervals] at hstarts hcount
  refine ⟨pre, ms, s, n, d, hrecord, hjoins, hcalls, hd, hintervals,
    hstarts.trans (by decide), ?_⟩
  refine hcount 70 (by decide) ?_ (.inr ?_)
  · rw [hcalls]
    decide
  · rw [hcalls]
    decide

end Node

end TrickleNet
