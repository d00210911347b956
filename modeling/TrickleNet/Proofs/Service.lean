import Mathlib
import TrickleNet.Proofs.Keys
import TrickleNet.Proofs.Ringing
/-!
# What a table of alarms promises

To its users an `AlarmTable` is a service that answers `AlarmTable.Request`s.  `AlarmTable.serve`
lets a fresh table answer a series of them and keeps a log, latest entry first.  What is to ring,
and when, can be told from the log alone: `lastArming` is how an alarm was armed last, and `pending`
is the same as long as the alarm is still to ring.  Neither knows of the slots of the table.

`Agrees` ties the slots to the log.  From it follows that all ways to look at a table show the
pending alarms, and that the alarm that rings is the foremost of them (`rings_as_armed`).  The
numbers of the armings decide between alarms of one deadline, so they must not have wrapped around.
-/

namespace TrickleNet.AlarmTable

/-- A request to a table of alarms. -/
inductive Request where
  /-- Arm an alarm to ring a span after `now`. -/
  | set (p : Purpose) (now : Instant) (after : Span)
  /-- Arm an alarm for another interval. -/
  | rearm (p : Purpose)
  /-- Silence an alarm. -/
  | stop (p : Purpose)
  /-- Forget an alarm. -/
  | remove (p : Purpose)
  /-- Forget every alarm of an instance. -/
  | removeInstance (i : InstanceId)
  /-- Let the first alarm ring that is due at `now`. -/
  | ring (now : Instant)
deriving DecidableEq

namespace Request

/-- Whether the request takes an arming number. -/
def arms : Request → Bool
  | set _ _ _ | rearm _ => true
  | _ => false

/-- Whether the request arms this alarm. -/
def armsFor (c : Request) (q : Purpose) : Bool :=
  match c with
  | set p _ _ | rearm p => p = q
  | _ => false

end Request

/-- A request and the alarm that rang at it, if one did. -/
structure Entry where
  /-- The request. -/
  request : Request
  /-- The alarm that rang. -/
  rang : Option Ring
deriving DecidableEq

/-- Whether an entry ends what an alarm was armed for: the alarm rings, is silenced or is
forgotten. -/
def Entry.ends (e : Entry) (q : Purpose) : Bool :=
  match e.request with
  | .stop p | .remove p => p = q
  | .removeInstance i => q.inst? = some i
  | .ring _ => e.rang.any fun r => r.purpose = q
  | _ => false

/-- The alarm that rings at a request, if one does, and the table after it. -/
def answer (t : AlarmTable) : Request → Option Ring × AlarmTable
  | .set p now after => (none, t.set p now after)
  | .rearm p => (none, t.rearm p)
  | .stop p => (none, t.stop p)
  | .remove p => (none, t.remove p)
  | .removeInstance i => (none, t.removeInstance i)
  | .ring now =>
    match t.ring? now with
    | none => (none, t)
    | some (r, u) => (some r, u)

/-- The log after a request, latest entry first, and the table after it. -/
def advance (s : List Entry × AlarmTable) (c : Request) : List Entry × AlarmTable :=
  (⟨c, (s.2.answer c).1⟩ :: s.1, (s.2.answer c).2)

/-- Lets a fresh table answer requests, one after the other. -/
def serve (cs : List Request) : List Entry × AlarmTable := cs.foldl advance ([], ∅)

/-! ## What the log says -/

/-- How an alarm was armed. -/
@[ext] structure Arming where
  /-- How many requests took an arming number before. -/
  place : Nat
  /-- When the alarm is due. -/
  deadline : Instant
  /-- The interval that the alarm was set for. -/
  interval : Span
deriving DecidableEq

/-- Whether an alarm is due before another one, or with it and armed earlier. -/
def Arming.Precedes (a b : Arming) : Prop :=
  a.deadline < b.deadline ∨ a.deadline = b.deadline ∧ a.place < b.place

/-- How many requests of a log took an arming number. -/
def armings (es : List Entry) : Nat := es.countP fun e => e.request.arms

/-- How an alarm was armed last, whether it has rung since or not.  An alarm that is set is due a
span after the instant of the request.  One that is armed again is due one interval after its last
deadline, if it has not been forgotten. -/
def lastArming (q : Purpose) : List Entry → Option Arming
  | [] => none
  | ⟨.set p now after, _⟩ :: es =>
    if p = q then some ⟨armings es, now + after, after⟩ else lastArming q es
  | ⟨.rearm p, _⟩ :: es =>
    if p = q then
      (lastArming q es).map fun a => ⟨armings es, a.deadline + a.interval, a.interval⟩
    else lastArming q es
  | ⟨.remove p, _⟩ :: es => if p = q then none else lastArming q es
  | ⟨.removeInstance i, _⟩ :: es => if q.inst? = some i then none else lastArming q es
  | ⟨.stop _, _⟩ :: es | ⟨.ring _, _⟩ :: es => lastArming q es

/-- How an alarm was armed last, if it is still to ring. -/
def pending (q : Purpose) : List Entry → Option Arming
  | [] => none
  | e :: es =>
    if e.request.armsFor q then lastArming q (e :: es) else if e.ends q then none else pending q es

variable {t u : AlarmTable} {es : List Entry} {e : Entry} {c : Request} {q q' : Purpose}
  {a b : Arming} {now d : Instant} {r : Ring}

/-- A request that neither arms an alarm nor forgets it leaves its last arming alone. -/
theorem lastArming_cons_of_not (harms : e.request.armsFor q = false) (hends : e.ends q = false) :
    lastArming q (e :: es) = lastArming q es := by
  obtain ⟨c, rang⟩ := e
  cases c <;> simp_all [lastArming, Request.armsFor, Entry.ends]

/-- What is still to ring is what was armed last. -/
theorem lastArming_of_pending (h : pending q es = some a) : lastArming q es = some a := by
  induction es with
  | nil => cases h
  | cons e es ih =>
    rw [pending] at h
    split at h
    · exact h
    · rename_i harms
      split at h
      · cases h
      · rename_i hends
        rw [lastArming_cons_of_not (by simpa using harms) (by simpa using hends)]
        exact ih h

/-- Nothing has happened to a pending alarm since it was armed. -/
theorem exists_of_pending (h : pending q es = some a) :
    ∃ mid e pre, es = mid ++ e :: pre ∧ e.request.armsFor q = true ∧
      lastArming q (e :: pre) = some a ∧
        ∀ x ∈ mid, x.request.armsFor q = false ∧ x.ends q = false := by
  induction es with
  | nil => cases h
  | cons e es ih =>
    rw [pending] at h
    split at h
    · rename_i harms
      exact ⟨[], e, es, rfl, harms, h, fun x hx => absurd hx List.not_mem_nil⟩
    · rename_i harms
      split at h
      · cases h
      · rename_i hends
        obtain ⟨mid, x, pre, rfl, hx, hlast, hmid⟩ := ih h
        refine ⟨e :: mid, x, pre, rfl, hx, hlast, fun y hy => ?_⟩
        rcases List.mem_cons.1 hy with rfl | hy
        · exact ⟨by simpa using harms, by simpa using hends⟩
        · exact hmid y hy

/-- What the latest entry has to do with how an alarm was armed last. -/
theorem cases_of_lastArming (h : lastArming q (e :: es) = some a) :
    (∃ now after, e.request = .set q now after ∧ a = ⟨armings es, now + after, after⟩) ∨
    (e.request = .rearm q ∧ ∃ b, lastArming q es = some b ∧
      a = ⟨armings es, b.deadline + b.interval, b.interval⟩) ∨
    e.request.armsFor q = false ∧ lastArming q es = some a := by
  obtain ⟨c, rang⟩ := e
  cases c with
  | set p now after =>
    by_cases hp : p = q
    · subst hp
      rw [lastArming, if_pos rfl] at h
      exact .inl ⟨now, after, rfl, (Option.some.inj h).symm⟩
    · rw [lastArming, if_neg hp] at h
      exact .inr (.inr ⟨by simp [Request.armsFor, hp], h⟩)
  | rearm p =>
    by_cases hp : p = q
    · subst hp
      rw [lastArming, if_pos rfl, Option.map_eq_some_iff] at h
      obtain ⟨b, hb, rfl⟩ := h
      exact .inr (.inl ⟨rfl, b, hb, rfl⟩)
    · rw [lastArming, if_neg hp] at h
      exact .inr (.inr ⟨by simp [Request.armsFor, hp], h⟩)
  | stop | ring => exact .inr (.inr ⟨rfl, h⟩)
  | remove | removeInstance =>
    rw [lastArming] at h
    split at h
    · cases h
    · exact .inr (.inr ⟨rfl, h⟩)

/-- The interval of an alarm is that of the last request to set it. -/
theorem interval_of_lastArming (h : lastArming q es = some a) :
    ∃ mid e pre start, es = mid ++ e :: pre ∧ e.request = .set q start a.interval ∧
      ∀ x ∈ mid, ∀ start after, x.request ≠ .set q start after := by
  induction es generalizing a with
  | nil => cases h
  | cons e es ih =>
    have hlater {b : Arming} (hb : lastArming q es = some b) (hinterval : b.interval = a.interval)
        (he : ∀ start after, e.request ≠ .set q start after) :
        ∃ mid x pre start, e :: es = mid ++ x :: pre ∧ x.request = .set q start a.interval ∧
          ∀ x ∈ mid, ∀ start after, x.request ≠ .set q start after := by
      obtain ⟨mid, x, pre, start, rfl, hx, hmid⟩ := ih hb
      refine ⟨e :: mid, x, pre, start, rfl, by rw [hx, hinterval], fun y hy => ?_⟩
      rcases List.mem_cons.1 hy with rfl | hy
      · exact he
      · exact hmid y hy
    rcases cases_of_lastArming h with ⟨now, after, he, rfl⟩ | ⟨he, b, hb, rfl⟩ | ⟨harms, hb⟩
    · exact ⟨[], e, es, now, rfl, he, fun x hx => absurd hx List.not_mem_nil⟩
    · exact hlater hb rfl (by simp [he])
    · refine hlater hb rfl fun start after he => ?_
      simp [Request.armsFor, he] at harms

theorem Request.eq_of_armsFor (h : c.armsFor q = true) (h' : c.armsFor q' = true) : q = q' := by
  cases c <;> simp_all [armsFor]

theorem armings_cons (e : Entry) (es : List Entry) :
    armings (e :: es) = armings es + if e.request.arms then 1 else 0 := List.countP_cons

/-- An alarm was armed before the next request that arms one. -/
theorem place_lt_armings (h : lastArming q es = some a) : a.place < armings es := by
  induction es with
  | nil => cases h
  | cons e es ih =>
    rw [armings_cons]
    rcases cases_of_lastArming h with ⟨now, after, he, rfl⟩ | ⟨he, b, -, rfl⟩ | ⟨-, h⟩
    · simp [he, Request.arms]
    · simp [he, Request.arms]
    · have hlt := ih h
      omega

/-- An alarm that a request arms takes its place from it. -/
theorem place_of_cons (h : lastArming q (e :: es) = some a) :
    e.request.armsFor q = true ∧ a.place = armings es ∨ lastArming q es = some a := by
  rcases cases_of_lastArming h with ⟨now, after, he, rfl⟩ | ⟨he, b, -, rfl⟩ | ⟨-, h⟩
  · exact .inl ⟨by simp [he, Request.armsFor], rfl⟩
  · exact .inl ⟨by simp [he, Request.armsFor], rfl⟩
  · exact .inr h

/-- No request arms two alarms. -/
theorem eq_of_place_eq (h : lastArming q es = some a) (h' : lastArming q' es = some b)
    (hplace : a.place = b.place) : q = q' := by
  induction es with
  | nil => cases h
  | cons e es ih =>
    rcases place_of_cons h with ⟨harms, ha⟩ | h
    · rcases place_of_cons h' with ⟨harms', -⟩ | h'
      · exact Request.eq_of_armsFor harms harms'
      · have hlt := place_lt_armings h'
        omega
    · rcases place_of_cons h' with ⟨-, hb⟩ | h'
      · have hlt := place_lt_armings h
        omega
      · exact ih h h'

/-! ## The table agrees with its log -/

/-- How the slot of an alarm says that it was armed. -/
def armingOf (s : Alarm) : Arming := ⟨s.number.toNat, s.deadline, s.interval⟩

/-- The slots of a table hold what its log says. -/
structure Agrees (es : List Entry) (t : AlarmTable) : Prop where
  number : t.nextNumber.toNat = armings es
  slots : ∀ q, (t.slots.find? q).map (fun s => (armingOf s, s.armed)) =
    (lastArming q es).map fun a => (a, (pending q es).isSome)

theorem agrees_empty : Agrees [] ∅ := ⟨rfl, fun _ => rfl⟩

theorem Agrees.lastArming_eq (h : Agrees es t) (q : Purpose) :
    lastArming q es = (t.slots.find? q).map armingOf := by
  have hslots := congrArg (Option.map Prod.fst) (h.slots q)
  simpa [Function.comp_def] using hslots.symm

theorem answer_ring (h : t.ring? now = some (r, u)) : t.answer (.ring now) = (some r, u) := by
  simp only [answer, h]

theorem answer_ring_none (h : t.ring? now = none) : t.answer (.ring now) = (none, t) := by
  simp only [answer, h]

/-- An alarm that a request is not about keeps its slot. -/
theorem find?_answer (harms : c.armsFor q = false)
    (hends : Entry.ends ⟨c, (t.answer c).1⟩ q = false) :
    (t.answer c).2.slots.find? q = t.slots.find? q := by
  cases c with
  | set p now after | rearm p =>
    have hne : q ≠ p := by
      rintro rfl
      simp [Request.armsFor] at harms
    simp [answer, set, rearm, hne]
  | stop p | remove p =>
    have hne : q ≠ p := by
      rintro rfl
      simp [Entry.ends] at hends
    simp [answer, stop, remove, hne]
  | removeInstance i =>
    have hne : q.inst? ≠ some i := by simpa [Entry.ends] using hends
    rw [answer, removeInstance, Table.find?_filter]
    cases t.slots.find? q <;> simp [Option.filter, hne]
  | ring now =>
    cases hring : t.ring? now with
    | none => rw [answer_ring_none hring]
    | some x =>
      obtain ⟨r, u⟩ := x
      obtain ⟨-, -, rfl, -⟩ := ring?_eq_some hring
      rw [answer_ring hring] at hends ⊢
      have hne : q ≠ r.purpose := by
        rintro rfl
        simp [Entry.ends] at hends
      simp [stop, hne]

/-- An alarm that is armed takes a slot with the next number. -/
theorem find?_answer_armed (h : Agrees es t) (harms : c.armsFor q = true) (rang : Option Ring) :
    ((t.answer c).2.slots.find? q).map (fun s => (armingOf s, s.armed)) =
      (lastArming q (⟨c, rang⟩ :: es)).map fun a => (a, true) := by
  have hnumber := h.number
  cases c with
  | set p now after =>
    obtain rfl : p = q := by simpa [Request.armsFor] using harms
    simp [answer, set, lastArming, armingOf, Alarm.deadline, hnumber]
  | rearm p =>
    obtain rfl : p = q := by simpa [Request.armsFor] using harms
    simp [answer, rearm, lastArming, h.lastArming_eq, Function.comp_def, armingOf, Alarm.deadline,
      hnumber]
  | stop | remove | removeInstance | ring => simp [Request.armsFor] at harms

/-- An alarm that rings or is silenced keeps its slot, and one that is forgotten loses it. -/
theorem find?_answer_ended (h : Agrees es t)
    (hends : Entry.ends ⟨c, (t.answer c).1⟩ q = true) :
    ((t.answer c).2.slots.find? q).map (fun s => (armingOf s, s.armed)) =
      (lastArming q (⟨c, (t.answer c).1⟩ :: es)).map fun a => (a, false) := by
  cases c with
  | set | rearm => simp [Entry.ends] at hends
  | stop p =>
    obtain rfl : p = q := by simpa [Entry.ends] using hends
    simp [answer, stop, lastArming, h.lastArming_eq, Function.comp_def, armingOf, Alarm.deadline]
  | remove p =>
    obtain rfl : p = q := by simpa [Entry.ends] using hends
    simp [answer, remove, lastArming]
  | removeInstance i =>
    have hi : q.inst? = some i := by simpa [Entry.ends] using hends
    simp only [answer, removeInstance, lastArming, Table.find?_filter, if_pos hi]
    cases t.slots.find? q <;> simp [Option.filter, hi]
  | ring now =>
    cases hring : t.ring? now with
    | none =>
      rw [answer_ring_none hring] at hends
      simp [Entry.ends] at hends
    | some x =>
      obtain ⟨r, u⟩ := x
      obtain ⟨-, -, rfl, -⟩ := ring?_eq_some hring
      rw [answer_ring hring] at hends ⊢
      obtain rfl : r.purpose = q := by simpa [Entry.ends] using hends
      simp [stop, lastArming, h.lastArming_eq, Function.comp_def, armingOf, Alarm.deadline]

/-- The number of the next arming grows by one with each request that takes one. -/
theorem nextNumber_answer
    (hfew : (t.nextNumber.toNat + if c.arms then 1 else 0) < wordLimit64) :
    (t.answer c).2.nextNumber.toNat = t.nextNumber.toNat + if c.arms then 1 else 0 := by
  cases c with
  | set | rearm =>
    show (t.nextNumber + 1).toNat = t.nextNumber.toNat + 1
    rw [UInt64.toNat_add]
    exact Nat.mod_eq_of_lt hfew
  | stop | remove | removeInstance => rfl
  | ring now =>
    cases hring : t.ring? now with
    | none =>
      rw [answer_ring_none hring]
      rfl
    | some x =>
      obtain ⟨r, u⟩ := x
      obtain ⟨-, -, rfl, -⟩ := ring?_eq_some hring
      rw [answer_ring hring]
      rfl

theorem Agrees.answer (h : Agrees es t) (c : Request)
    (hfew : armings (⟨c, (t.answer c).1⟩ :: es) < wordLimit64) :
    Agrees (⟨c, (t.answer c).1⟩ :: es) (t.answer c).2 := by
  rw [armings_cons, ← h.number] at hfew
  constructor
  · rw [nextNumber_answer hfew, armings_cons, h.number]
  · intro q
    by_cases harms : c.armsFor q = true
    · rw [find?_answer_armed h harms (t.answer c).1, pending, if_pos harms]
      cases lastArming q (⟨c, (t.answer c).1⟩ :: es) <;> rfl
    by_cases hends : Entry.ends ⟨c, (t.answer c).1⟩ q = true
    · rw [find?_answer_ended h hends, pending, if_neg harms, if_pos hends]
      rfl
    · rw [pending, if_neg harms, if_neg hends]
      rw [Bool.not_eq_true] at harms hends
      rw [find?_answer harms hends, lastArming_cons_of_not harms hends]
      exact h.slots q

theorem serve_concat (cs : List Request) (c : Request) :
    serve (cs ++ [c]) = advance (serve cs) c := by
  rw [serve, List.foldl_concat]
  rfl

/-- The log keeps every request that takes a number. -/
theorem armings_serve (cs : List Request) : armings (serve cs).1 = cs.countP Request.arms := by
  induction cs using List.reverseRecOn with
  | nil => rfl
  | append_singleton cs c ih =>
    rw [serve_concat, advance, armings_cons, ih, List.countP_append, List.countP_singleton]

/-- As long as there are numbers left, the table agrees with its log. -/
theorem agrees_serve {cs : List Request} (hfew : cs.countP Request.arms < wordLimit64) :
    Agrees (serve cs).1 (serve cs).2 := by
  induction cs using List.reverseRecOn with
  | nil => exact agrees_empty
  | append_singleton cs c ih =>
    have hlog := armings_serve (cs ++ [c])
    rw [serve_concat] at hlog ⊢
    apply Agrees.answer
    · apply ih
      rw [List.countP_append] at hfew
      omega
    · exact hlog.trans_lt hfew

/-! ## All views of a table show the pending alarms -/

/-- The deadline of an alarm is that of its pending arming. -/
theorem Agrees.deadline?_eq (h : Agrees es t) (q : Purpose) :
    t.deadline? q = (pending q es).map Arming.deadline := by
  have hslot := h.slots q
  cases hlast : lastArming q es with
  | none =>
    have hpending : pending q es = none := by
      by_contra hsome
      obtain ⟨a, ha⟩ := Option.ne_none_iff_exists'.1 hsome
      rw [lastArming_of_pending ha] at hlast
      cases hlast
    rw [hlast, Option.map_none, Option.map_eq_none_iff] at hslot
    rw [hpending, deadline?, hslot]
    rfl
  | some a =>
    rw [hlast, Option.map_some, Option.map_eq_some_iff] at hslot
    obtain ⟨s, hs, heq⟩ := hslot
    obtain ⟨rfl, harmed⟩ := Prod.mk.inj heq
    rw [deadline?, hs]
    cases hpending : pending q es with
    | none => simp [harmed, hpending]
    | some b =>
      obtain rfl : armingOf s = b :=
        Option.some.inj (hlast.symm.trans (lastArming_of_pending hpending))
      simp [harmed, hpending, armingOf]

theorem mem_armed : r ∈ t.armed ↔ t.deadline? r.purpose = some r.deadline := by
  rw [deadline?_eq_some_iff]
  simp only [armed, List.mem_map, List.mem_filter]
  constructor
  · rintro ⟨e, ⟨he, harmed⟩, rfl⟩
    exact ⟨e.2, he, harmed, rfl⟩
  · rintro ⟨s, hs, harmed, hd⟩
    exact ⟨(r.purpose, s), ⟨hs, harmed⟩, by rw [hd]⟩

/-- The purposes of the alarms that are to ring stand in ascending order, each of them once. -/
theorem ascending_armed (t : AlarmTable) :
    t.armed.Pairwise fun r r' => rank r.purpose < rank r'.purpose := by
  rw [armed, List.pairwise_map]
  exact t.slots.ascending.filter _

theorem nextDeadline?_eq_none_iff : t.nextDeadline? = none ↔ t.armed = [] := by
  rw [nextDeadline?]
  cases t.armed <;> simp

theorem le_of_nextDeadline? {d' : Instant} (h : t.nextDeadline? = some d)
    (hq : t.deadline? q = some d') : d ≤ d' := by
  have hmem : ⟨q, d'⟩ ∈ t.armed := mem_armed.2 hq
  unfold nextDeadline? at h
  generalize t.armed = rs at h hmem
  induction rs generalizing d with
  | nil => cases hmem
  | cons r rs ih =>
    rw [List.foldr_cons] at h
    split at h
    · rename_i hnone
      obtain rfl := Option.some.inj h
      obtain rfl : rs = [] := by
        cases rs with
        | nil => rfl
        | cons r rs => simp at hnone
      obtain rfl := List.mem_singleton.1 hmem
      exact Nat.le_refl _
    · rename_i m hm
      have hle : d ≤ r.deadline ∧ d ≤ m := by
        split at h <;> obtain rfl := Option.some.inj h <;> simp only [Instant.le_iff] at * <;> omega
      rcases List.mem_cons.1 hmem with rfl | hmem
      · exact hle.1
      · exact Nat.le_trans hle.2 (ih hm hmem)

/-- There is a next deadline as long as an alarm is to ring. -/
theorem exists_nextDeadline? (hq : t.deadline? q = some d) : ∃ m, t.nextDeadline? = some m := by
  cases hnext : t.nextDeadline? with
  | none =>
    have hmem : ⟨q, d⟩ ∈ t.armed := mem_armed.2 hq
    rw [nextDeadline?_eq_none_iff.1 hnext] at hmem
    cases hmem
  | some m => exact ⟨m, rfl⟩

/-- The next deadline is the earliest one of an alarm. -/
theorem nextDeadline?_eq_some_iff :
    t.nextDeadline? = some d ↔
      (∃ q, t.deadline? q = some d) ∧ ∀ q d', t.deadline? q = some d' → d ≤ d' := by
  constructor
  · intro h
    exact ⟨exists_of_nextDeadline? h, fun q d' hq => le_of_nextDeadline? h hq⟩
  · rintro ⟨⟨q, hq⟩, hleast⟩
    obtain ⟨m, hnext⟩ := exists_nextDeadline? hq
    obtain ⟨q', hq'⟩ := exists_of_nextDeadline? hnext
    have hle := le_of_nextDeadline? hnext hq
    have hge := hleast q' m hq'
    rw [hnext, Option.some.injEq, Instant.ext_iff]
    exact Nat.le_antisymm hle hge

/-- Nothing rings exactly as long as the next deadline is still to come. -/
theorem ring?_eq_none_iff_next : t.ring? now = none ↔ ∀ d, t.nextDeadline? = some d → now < d := by
  rw [ring?_eq_none_iff]
  constructor
  · intro h d hd
    obtain ⟨q, hq⟩ := exists_of_nextDeadline? hd
    exact h q d hq
  · intro h q d hq
    obtain ⟨m, hnext⟩ := exists_nextDeadline? hq
    exact Nat.lt_of_lt_of_le (h m hnext) (le_of_nextDeadline? hnext hq)

/-! ## What rings is the foremost of the pending alarms -/

/-- No alarm of a list precedes the foremost one. -/
theorem not_precedes_foremost {l : List (Purpose × Alarm)} {f x : Purpose × Alarm}
    (h : foremost l = some f) (hx : x ∈ l) : ¬x.2.Precedes f.2 := by
  induction l generalizing f with
  | nil => cases hx
  | cons y l ih =>
    simp only [foremost] at h
    split at h
    · rename_i hnone
      obtain rfl := Option.some.inj h
      rw [foremost_eq_none_iff] at hnone
      subst hnone
      obtain rfl := List.mem_singleton.1 hx
      simp [Alarm.Precedes, Instant.lt_iff]
    · rename_i b hb
      have hlist : x ∈ l → ¬x.2.Precedes b.2 := ih hb
      simp only [Alarm.Precedes, Instant.lt_iff, Instant.ext_iff,
        UInt64.lt_iff_toNat_lt] at h hlist ⊢
      split at h <;> obtain rfl := Option.some.inj h
      · rcases List.mem_cons.1 hx with rfl | hx
        · omega
        · exact hlist hx
      · rcases List.mem_cons.1 hx with rfl | hx
        · omega
        · have := hlist hx
          omega

/-- A pending alarm has an armed slot. -/
theorem Agrees.slot_of_pending (h : Agrees es t) (hb : pending q es = some b) :
    ∃ s, (q, s) ∈ t.slots.toList ∧ s.armed = true ∧ armingOf s = b := by
  have hslot := h.slots q
  rw [lastArming_of_pending hb, hb, Option.map_some, Option.map_eq_some_iff] at hslot
  obtain ⟨s, hs, heq⟩ := hslot
  obtain ⟨harming, harmed⟩ := Prod.mk.inj heq
  exact ⟨s, Table.find?_eq_some_iff.1 hs, harmed, harming⟩

/-- What rings is pending, and it precedes all other alarms that are. -/
theorem Agrees.foremost (h : Agrees es t) (hring : t.ring? now = some (r, u)) :
    ∃ a, pending r.purpose es = some a ∧ a.deadline = r.deadline ∧ r.deadline ≤ now ∧
      ∀ q b, q ≠ r.purpose → pending q es = some b → a.Precedes b := by
  obtain ⟨f, hf, heq⟩ := Option.map_eq_some_iff.1 hring
  obtain ⟨rfl, rfl⟩ := Prod.mk.inj heq
  obtain ⟨hd, hdue, -⟩ := due?_eq_some hf
  obtain ⟨hmem, -⟩ := List.mem_filter.1 (foremost_mem hf)
  have hlast : lastArming f.1 es = some (armingOf f.2) := by
    rw [h.lastArming_eq, Table.find?_eq_some_iff.2 hmem]
    rfl
  obtain ⟨a, ha, hdeadline⟩ := Option.map_eq_some_iff.1 ((h.deadline?_eq f.1).symm.trans hd)
  obtain rfl : armingOf f.2 = a := Option.some.inj (hlast.symm.trans (lastArming_of_pending ha))
  refine ⟨armingOf f.2, ha, hdeadline, hdue, fun q b hq hb => ?_⟩
  have hplace : (armingOf f.2).place ≠ b.place := fun hplace =>
    hq (eq_of_place_eq (lastArming_of_pending hb) hlast hplace.symm)
  obtain ⟨s, hs, harmed, rfl⟩ := h.slot_of_pending hb
  simp only [armingOf] at hplace
  simp only [Arming.Precedes, armingOf, Instant.lt_iff, Instant.ext_iff]
  by_cases hsdue : s.deadline ≤ now
  · have hdues : s.isDue now = true := by simp [Alarm.isDue, harmed, hsdue]
    have hnot := not_precedes_foremost hf (List.mem_filter.2 ⟨hs, hdues⟩)
    simp only [Alarm.Precedes, Instant.lt_iff, Instant.ext_iff, UInt64.lt_iff_toNat_lt] at hnot
    omega
  · rw [Instant.le_iff] at hsdue hdue
    omega

/-- A table that has answered fewer requests to arm than there are numbers is an exact service.  All
ways to look at it show the alarms that are pending by its log, with their deadlines, and nothing
rings exactly as long as the next deadline is still to come.  What rings is the pending alarm that
is due first, and of those with one deadline the one that was armed first.  Its deadline is that of
its last arming: a span after the instant for which it was set, or one interval of its last setting
after the deadline before.  Since then it has not been armed again, and it has neither rung nor been
silenced or forgotten; so no arming rings twice. -/
theorem rings_as_armed {cs : List Request} {es : List Entry} {t : AlarmTable}
    (h : serve cs = (es, t)) (hfew : cs.countP Request.arms < wordLimit64) :
    (∀ q, t.deadline? q = (pending q es).map Arming.deadline) ∧
    (∀ q, t.isArmed q = (pending q es).isSome) ∧
    (∀ r, r ∈ t.armed ↔ t.deadline? r.purpose = some r.deadline) ∧
    t.armed.Pairwise (fun r r' => rank r.purpose < rank r'.purpose) ∧
    (t.nextDeadline? = none ↔ t.armed = []) ∧
    (∀ d, t.nextDeadline? = some d ↔
      (∃ q, t.deadline? q = some d) ∧ ∀ q d', t.deadline? q = some d' → d ≤ d') ∧
    ∀ now,
      (t.ring? now = none ↔ ∀ d, t.nextDeadline? = some d → now < d) ∧
      ∀ r u, t.ring? now = some (r, u) → ∃ a, pending r.purpose es = some a ∧
        a.deadline = r.deadline ∧ r.deadline ≤ now ∧
        (∀ q b, q ≠ r.purpose → pending q es = some b → a.Precedes b) ∧
        ∃ (mid : List Entry) (e : Entry) (pre : List Entry), es = mid ++ e :: pre ∧
          (∀ x ∈ mid, x.request.armsFor r.purpose = false ∧ x.ends r.purpose = false) ∧
          ((∃ start after, e.request = .set r.purpose start after ∧ r.deadline = start + after) ∨
            e.request = .rearm r.purpose ∧ ∃ (b : Arming) (mid' : List Entry) (s : Entry)
              (pre' : List Entry) (start : Instant), lastArming r.purpose pre = some b ∧
              r.deadline = b.deadline + b.interval ∧ pre = mid' ++ s :: pre' ∧
              s.request = .set r.purpose start b.interval ∧
              ∀ x ∈ mid', ∀ start after, x.request ≠ .set r.purpose start after) := by
  have hagrees : Agrees es t := by
    have hserved := agrees_serve hfew
    rwa [h] at hserved
  refine ⟨hagrees.deadline?_eq, fun q => ?_, fun r => mem_armed, t.ascending_armed,
    nextDeadline?_eq_none_iff, fun d => nextDeadline?_eq_some_iff, fun now =>
      ⟨ring?_eq_none_iff_next, fun r u hring => ?_⟩⟩
  · rw [isArmed, hagrees.deadline?_eq, Option.isSome_map]
  · obtain ⟨a, ha, hdeadline, hdue, hfirst⟩ := hagrees.foremost hring
    refine ⟨a, ha, hdeadline, hdue, hfirst, ?_⟩
    obtain ⟨mid, e, pre, hes, harms, hlast, hmid⟩ := exists_of_pending ha
    refine ⟨mid, e, pre, hes, hmid, ?_⟩
    rcases cases_of_lastArming hlast with ⟨start, after, he, rfl⟩ | ⟨he, b, hb, rfl⟩ | ⟨hnot, -⟩
    · exact .inl ⟨start, after, he, hdeadline.symm⟩
    · obtain ⟨mid', s, pre', start, hpre, hs, hmid'⟩ := interval_of_lastArming hb
      exact .inr ⟨he, b, mid', s, pre', start, hb, hdeadline.symm, hpre, hs, hmid'⟩
    · rw [harms] at hnot
      cases hnot

/-- Requests that set two alarms for one deadline, let both ring in one go, and arm the first of
them again, twice, with a stop between. -/
def armedAgain : List Request :=
  [.set (.report 2) .zero (.ofTicks 10), .set (.advertise 1) .zero (.ofTicks 10),
    .ring (.ofTicks 12), .ring (.ofTicks 12), .rearm (.report 2), .stop (.report 2),
    .rearm (.report 2)]

/-- The alarm that was armed first rings first, although the other one comes before it in the table,
and the one that is armed again after it has rung and after it was stopped keeps to its grid of 10
ticks. -/
theorem rings_as_armed_again :
    ∃ (es : List Entry) (t u : AlarmTable), serve armedAgain = (es, t) ∧
      es.map Entry.rang = [none, none, none, some ⟨.advertise 1, .ofTicks 10⟩,
        some ⟨.report 2, .ofTicks 10⟩, none, none] ∧
      armedAgain.countP Request.arms < wordLimit64 ∧
      t.ring? (.ofTicks 31) = some (⟨.report 2, .ofTicks 30⟩, u) ∧
      t.armed = [⟨.report 2, .ofTicks 30⟩] ∧
      ∃ a, pending (.report 2) es = some a ∧ a.deadline = .ofTicks 30 := by
  obtain ⟨es, t, u, hserve, hlog, hfew, hring, harmed⟩ :
      ∃ (es : List Entry) (t u : AlarmTable), serve armedAgain = (es, t) ∧
        es.map Entry.rang = [none, none, none, some ⟨.advertise 1, .ofTicks 10⟩,
          some ⟨.report 2, .ofTicks 10⟩, none, none] ∧
        armedAgain.countP Request.arms < wordLimit64 ∧
        t.ring? (.ofTicks 31) = some (⟨.report 2, .ofTicks 30⟩, u) ∧
        t.armed = [⟨.report 2, .ofTicks 30⟩] :=
    ⟨_, _, _, rfl, rfl, by decide, rfl, rfl⟩
  have hexact := (rings_as_armed hserve hfew).2.2.2.2.2.2 (.ofTicks 31)
  obtain ⟨a, ha, hdeadline, -⟩ := hexact.2 _ _ hring
  exact ⟨es, t, u, hserve, hlog, hfew, hring, harmed, a, ha, hdeadline⟩

end TrickleNet.AlarmTable
