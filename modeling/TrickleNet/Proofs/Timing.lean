import Mathlib
import TrickleNet.Proofs.Interval
import TrickleNet.Proofs.Keys
import TrickleNet.Proofs.Run
import TrickleNet.Proofs.Timer
/-!
# What moves a trickle timer

A `Signal` is what an event can mean to the trickle timer of one instance, and `Timer.Step` what the
timer makes of it: it waits, takes its decision, ends its interval or starts over.  Every event of a
run is a step of every trickle timer (`Moment.Valid.turns`), and advertises only where a timer takes
its decision.  So what holds of a trickle timer in all runs is a matter of `Timer.Step`, one timer
at a time.
-/

namespace TrickleNet

open Node (Event)

/-- What an event can mean to the trickle timer of an instance. -/
inductive Signal where
  /-- The instance is to be joined. -/
  | join (params : TrickleParams) (now : Instant)
  /-- The instance is left. -/
  | leave
  /-- The timer is to start over. -/
  | reset (force : Bool) (now : Instant)
  /-- A consistent advertisement was heard. -/
  | hear
  /-- The alarm of the timer rings. -/
  | ring (deadline : Instant)

/-- What an event means to the trickle timer of an instance, if anything. -/
def Node.Event.signal? (e : Event) (i : InstanceId) : Option Signal :=
  match e with
  | .request (.join j params) now => if i = j then some (.join params now) else none
  | .request (.leave j) _ => if i = j then some .leave else none
  | .request (.command (.resetDio j force)) now => if i = j then some (.reset force now) else none
  | .request (.command (.dioConsistent j)) _ => if i = j then some .hear else none
  | .ring ⟨.advertise j, deadline⟩ => if i = j then some (.ring deadline) else none
  | _ => none

namespace Dodag

/-- Whether a reset has an effect. -/
def resets (d : Dodag) (force : Bool) : Bool := force || d.params.minExponent.toNat < d.exponent

/-- The decision was taken: it is counted, and the interval runs out. -/
def decided (d : Dodag) : Dodag :=
  { d with
    phase := .jitter
    counts :=
      if d.heard < d.params.redundancy.toNat then { d.counts with sent := d.counts.sent + 1 }
      else { d.counts with suppressed := d.counts.suppressed + 1 } }

theorem bare_grow (d : Dodag) : d.grow.bare = d.bare.grow := by
  unfold grow
  split
  · rename_i hlt
    exact (if_pos hlt).symm
  · rename_i hnot
    exact (if_neg hnot).symm

/-- The parents have no part in how an interval begins. -/
theorem begin_bare {ρ : Type} [RandomSource ρ] {p : Platform} {d d' : Dodag} {split : Split}
    {source source' : ρ} (h : d.begin p source = .ok (split, d', source')) :
    d.bare.begin p source = .ok (split, d'.bare, source') := by
  obtain ⟨middle, next, hcurrent, hnext, hintervals, hreceived, rfl⟩ := begin_eq_ok h
  have hcurrent' : d.bare.currentSplit p source = .ok (split, middle) := hcurrent
  have hnext' : Split.draw p d.bare.nextExponent middle = .ok (next, source') := hnext
  have hintervals' : countUp d.bare.counts.intervals = .ok (d.counts.intervals + 1) :=
    addChecked_eq_ok_iff.2 ⟨rfl, hintervals⟩
  have hreceived' : addChecked wordLimit32 d.bare.counts.received d.bare.heard =
      .ok (d.counts.received + d.heard) :=
    addChecked_eq_ok_iff.2 ⟨rfl, hreceived⟩
  refine Checked.bind_eq_ok_iff.2 ⟨_, hcurrent', Checked.bind_eq_ok_iff.2 ⟨_, hintervals', ?_⟩⟩
  exact Checked.bind_eq_ok_iff.2 ⟨_, hreceived', Checked.bind_eq_ok_iff.2 ⟨_, hnext', rfl⟩⟩

end Dodag

/-- What a trickle timer makes of a signal on a node that is `ready` to advertise. -/
inductive Timer.Step (ρ : Type) [RandomSource ρ] (p : Platform) (ready : Bool) :
    Option Signal → Option Timer → Option Timer → Prop
  /-- The event means nothing to it. -/
  | aside {t : Option Timer} : Step ρ p ready none t t
  /-- The instance is not joined and stays so. -/
  | absent {s : Signal} : Step ρ p ready (some s) none none
  /-- The instance is joined, and its shortest interval begins. -/
  | joined {params : TrickleParams} {now : Instant} {split : Split} {d : Dodag}
      {source source' : ρ} :
      params.Valid → (Dodag.new params).restart.begin p source = .ok (split, d, source') →
        Step ρ p ready (some (.join params now)) none (some ⟨d, some (now + split.listen)⟩)
  /-- The instance is joined already. -/
  | refused {params : TrickleParams} {now : Instant} {t : Timer} :
      Step ρ p ready (some (.join params now)) (some t) (some t)
  /-- The instance is left. -/
  | left {t : Timer} : Step ρ p ready (some .leave) (some t) none
  /-- It is in its shortest interval already. -/
  | kept {force : Bool} {now : Instant} {t : Timer} : t.state.resets force = false →
      Step ρ p ready (some (.reset force now)) (some t) (some t)
  /-- Its shortest interval begins. -/
  | reset {force : Bool} {now : Instant} {t : Timer} {split : Split} {d : Dodag}
      {source source' : ρ} :
      t.state.resets force = true → t.state.restart.begin p source = .ok (split, d, source') →
        Step ρ p ready (some (.reset force now)) (some t) (some ⟨d, some (now + split.listen)⟩)
  /-- A consistent advertisement is noted. -/
  | heard {t : Timer} : Step ρ p ready (some .hear) (some t) (some { t with state := t.state.hear })
  /-- It waits for the link-local address. -/
  | postponed {e : Instant} {t : Timer} : ready = false → t.due = some e →
      Step ρ p ready (some (.ring e)) (some t) (some { t with due := some (e + p.postponeDelay) })
  /-- It takes its decision and waits for the end of the interval. -/
  | decided {e : Instant} {t : Timer} : ready = true → t.due = some e → t.state.phase = .listen →
      Step ρ p ready (some (.ring e)) (some t)
        (some ⟨t.state.decided, some (e + t.state.jitter)⟩)
  /-- The interval ends and the next one begins. -/
  | ended {e : Instant} {t : Timer} {split : Split} {d : Dodag} {source source' : ρ} :
      ready = true → t.due = some e → t.state.phase ≠ .listen →
        t.state.grow.begin p source = .ok (split, d, source') →
          Step ρ p ready (some (.ring e)) (some t) (some ⟨d, some (e + split.listen)⟩)

namespace Node

variable {ρ : Type} {p : Platform} {n m k : Node ρ} {i j : InstanceId} {d d' : Dodag} {t : Timer}
  {now due : Instant} {e : Event} {s : Signal}

/-- The trickle timer of an instance that is updated and has its alarm set. -/
theorem timer?_update (hdodags : m.dodags = n.dodags.insert j d')
    (hdue : m.alarms.deadline? (.advertise i) =
      if i = j then some due else n.alarms.deadline? (.advertise i)) :
    m.timer? i = if i = j then some ⟨d'.bare, some due⟩ else n.timer? i := by
  rw [timer?, timer?, hdodags, hdue, Table.find?_insert]
  split <;> rfl

variable [RandomSource ρ]

/-- What an event does to the trickle timers of a node and to its advertisements. -/
structure Turns (p : Platform) (n m : Node ρ) (e : Event) : Prop where
  timers : ∀ i, Timer.Step ρ p n.latchReady.mayAdvertise (e.signal? i) (n.timer? i) (m.timer? i)
  /-- A node that may advertise never stops to. -/
  mayAdvertise : n.mayAdvertise = true → m.mayAdvertise = true
  /-- The node remembers what it saw of its address when a trickle timer rang. -/
  latched : ∀ i due, e.signal? i = some (.ring due) → m.mayAdvertise = n.latchReady.mayAdvertise
  /-- A node advertises where a timer takes its decision and has not heard enough. -/
  outbox : ∃ new, m.outbox.toList = n.outbox.toList ++ new ∧ ∀ i l, Control.dio i l ∈ new →
    ∃ t due, n.timer? i = some t ∧ e.signal? i = some (.ring due) ∧
      n.latchReady.mayAdvertise = true ∧ t.state.phase = .listen ∧
        t.state.heard < t.state.params.redundancy.toNat ∧ l = t.state.lookahead

/-- An event that has nothing to do with advertising. -/
theorem SameAdverts.turns (h : n.SameAdverts m) (he : ∀ i, e.signal? i = none) : n.Turns p m e where
  timers i := by
    rw [h.timers, he]
    exact .aside
  mayAdvertise hmay := h.mayAdvertise.trans hmay
  latched i due hring := absurd ((he i).symm.trans hring) (by simp)
  outbox := by
    obtain ⟨new, hnew, hdio⟩ := h.outbox
    exact ⟨new, hnew, fun i l hmem => absurd hmem (hdio i l)⟩

/-- An event that only the timer of one instance takes part in. -/
theorem timers_of_signal {t' : Option Timer} {ready : Bool}
    (he : ∀ i, e.signal? i = if i = j then some s else none)
    (hstep : Timer.Step ρ p ready (some s) (n.timer? j) t')
    (htimers : ∀ i, m.timer? i = if i = j then t' else n.timer? i) (i : InstanceId) :
    Timer.Step ρ p ready (e.signal? i) (n.timer? i) (m.timer? i) := by
  rw [he, htimers]
  by_cases hij : i = j
  · rw [if_pos hij, if_pos hij, hij]
    exact hstep
  · rw [if_neg hij, if_neg hij]
    exact .aside

/-- A request that concerns the timer of one instance. -/
theorem turns_of_signal {u : Option Timer} (he : ∀ i, e.signal? i = if i = j then some s else none)
    (hs : ∀ due, s ≠ .ring due)
    (hstep : Timer.Step ρ p n.latchReady.mayAdvertise (some s) (n.timer? j) u)
    (htimers : ∀ i, m.timer? i = if i = j then u else n.timer? i)
    (hmay : m.mayAdvertise = n.mayAdvertise) (hbox : m.outbox = n.outbox) : n.Turns p m e where
  timers := timers_of_signal he hstep htimers
  mayAdvertise h := hmay.trans h
  latched i due hring := by
    rw [he] at hring
    split at hring
    · exact absurd (Option.some.inj hring) (hs due)
    · cases hring
  outbox := ⟨[], by rw [hbox, List.append_nil], fun _ _ hmem => absurd hmem List.not_mem_nil⟩

/-- A request that concerns the timer of one instance, but has no effect. -/
theorem turns_of_refused (he : ∀ i, e.signal? i = if i = j then some s else none)
    (hs : ∀ due, s ≠ .ring due)
    (hstep : Timer.Step ρ p n.latchReady.mayAdvertise (some s) (n.timer? j) (n.timer? j)) :
    n.Turns p n e := by
  refine turns_of_signal he hs hstep (fun i => ?_) rfl rfl
  split
  · rename_i hij
    rw [hij]
  · rfl

/-! ## Requests -/

/-- An interval that begins sets the timer of its instance. -/
theorem timer?_beginInterval (hd : n.dodags.find? j = some d)
    (h : beginInterval p n j now = .ok m) :
    ∃ split d' source, d.begin p n.source = .ok (split, d', source) ∧
      (∀ i, m.timer? i =
        if i = j then some ⟨d'.bare, some (now + split.listen)⟩ else n.timer? i) ∧
      m.mayAdvertise = n.mayAdvertise ∧ m.outbox = n.outbox := by
  obtain ⟨split, d', source, hbegin, rfl⟩ := beginInterval_eq_ok hd h
  refine ⟨split, d', source, hbegin, fun i => timer?_update rfl ?_, rfl, rfl⟩
  simp [arm, emit, putDodag]

/-- A reset has no effect, or begins the shortest interval. -/
theorem timer?_resetDio {force : Bool} {out : Outcome (Node ρ)} (hd : n.dodags.find? j = some d)
    (h : resetDio p n j force now = .ok out) :
    (d.resets force = false ∧ out.state = n) ∨
      (d.resets force = true ∧ ∃ split d' source,
        d.restart.begin p n.source = .ok (split, d', source) ∧
        (∀ i, out.state.timer? i =
          if i = j then some ⟨d'.bare, some (now + split.listen)⟩ else n.timer? i) ∧
        out.state.mayAdvertise = n.mayAdvertise ∧ out.state.outbox = n.outbox) := by
  simp only [resetDio, hd] at h
  split at h
  · rename_i hkept
    refine .inl ⟨?_, by rw [← Except.ok.inj h]; rfl⟩
    simp only [Bool.and_eq_true, Bool.not_eq_true', decide_eq_true_eq] at hkept
    simp only [Dodag.resets, hkept.1, Bool.false_or, decide_eq_false_iff_not]
    omega
  · rename_i hreset
    obtain ⟨k, hk, h⟩ := Checked.bind_eq_ok_iff.1 h
    obtain ⟨m, hm, h⟩ := Checked.bind_eq_ok_iff.1 h
    rw [← Except.ok.inj h]
    obtain ⟨-, rfl⟩ := count_eq_ok hk
    obtain ⟨split, d', source, hbegin, htimers, hmay, hbox⟩ :=
      timer?_beginInterval (d := d.restart) (by simp [emit, putDodag]) hm
    refine .inr ⟨?_, split, d', source, hbegin, fun i => ?_, hmay, hbox⟩
    · simp only [Bool.and_eq_true, Bool.not_eq_true', decide_eq_true_eq, not_and_or] at hreset
      simp only [Dodag.resets, Bool.or_eq_true, decide_eq_true_eq]
      exact hreset.imp (by simp) (by omega)
    · refine (htimers i).trans ?_
      split
      · rfl
      · rename_i hij
        refine timer?_of_ne ?_ rfl
        simp [emit, putDodag, hij]

theorem turns_resetDio {force : Bool} {out : Outcome (Node ρ)}
    (h : resetDio p n j force now = .ok out) :
    n.Turns p out.state (.request (.command (.resetDio j force)) now) := by
  have he (i : InstanceId) : (Event.request (.command (.resetDio j force)) now).signal? i =
      if i = j then some (.reset force now) else none := rfl
  cases hd : n.dodags.find? j with
  | none =>
    have hsame : out.state = n := by
      simp only [resetDio, hd] at h
      rw [← Except.ok.inj h]
      rfl
    rw [hsame]
    refine turns_of_refused he (by simp) ?_
    rw [timer?_eq_none_iff.2 hd]
    exact .absent
  | some d =>
    have ht := timer?_of_find? hd
    rcases timer?_resetDio hd h with ⟨hkept, hsame⟩ | ⟨hreset, split, d', source, hbegin, htimers,
      hmay, hbox⟩
    · rw [hsame]
      refine turns_of_refused he (by simp) ?_
      rw [ht]
      exact .kept hkept
    · refine turns_of_signal he (by simp) ?_ htimers hmay hbox
      rw [ht]
      exact .reset hreset (Dodag.begin_bare hbegin)

theorem turns_join {params : TrickleParams} {out : Outcome (Node ρ)}
    (h : join p n j params now = .ok out) :
    n.Turns p out.state (.request (.join j params) now) := by
  have he (i : InstanceId) : (Event.request (.join j params) now).signal? i =
      if i = j then some (.join params now) else none := rfl
  have hrefused : n.Turns p n (.request (.join j params) now) := by
    refine turns_of_refused he (by simp) ?_
    cases n.timer? j with
    | none => exact .absent
    | some t => exact .refused
  unfold join at h
  split at h
  · rw [← Except.ok.inj h]
    exact hrefused
  rename_i hvalid
  split at h
  · rw [← Except.ok.inj h]
    exact hrefused
  rename_i hnot
  split at h
  · rw [← Except.ok.inj h]
    exact hrefused
  have hnone : n.dodags.find? j = none := by
    rw [Table.find?_eq_none_iff]
    simpa using hnot
  have hd : (n.putDodag j (.new params)).dodags.find? j = some (.new params) := by simp [putDodag]
  -- A forced reset always has an effect.
  rcases timer?_resetDio hd h with ⟨hkept, -⟩ | ⟨-, split, d', source, hbegin, htimers, hmay, hbox⟩
  · cases hkept
  refine turns_of_signal he (by simp) (u := some ⟨d'.bare, some (now + split.listen)⟩) ?_ ?_
    hmay hbox
  · rw [timer?_eq_none_iff.2 hnone]
    exact .joined (not_not.1 hvalid) (Dodag.begin_bare hbegin)
  · intro i
    refine (htimers i).trans ?_
    split
    · rfl
    · rename_i hij
      refine timer?_of_ne ?_ rfl
      simp [putDodag, hij]

omit [RandomSource ρ] in
theorem timer?_leave (i : InstanceId) :
    (n.leave j).state.timer? i = if i = j then none else n.timer? i := by
  unfold leave
  split
  · by_cases hij : i = j
    · rw [if_pos hij, timer?_eq_none_iff]
      simp [Outcome.granted, hij]
    · rw [if_neg hij]
      refine timer?_of_ne ?_ ?_
      · simp [Outcome.granted, hij]
      · simp [Outcome.granted, hij, Purpose.inst?]
  · rename_i hnot
    split
    · rename_i hij
      rw [hij, timer?_eq_none_iff, Table.find?_eq_none_iff]
      simpa using hnot
    · rfl

theorem turns_leave : n.Turns p (n.leave j).state (.request (.leave j) now) := by
  have hsame : (n.leave j).state.mayAdvertise = n.mayAdvertise ∧
      (n.leave j).state.outbox = n.outbox := by
    unfold leave
    split <;> exact ⟨rfl, rfl⟩
  refine turns_of_signal (s := .leave) (fun _ => rfl) (by simp) ?_ timer?_leave hsame.1 hsame.2
  cases n.timer? j with
  | none => exact .absent
  | some t => exact .left

theorem turns_dioConsistent :
    n.Turns p (n.dioConsistent j).state (.request (.command (.dioConsistent j)) now) := by
  have he (i : InstanceId) : (Event.request (.command (.dioConsistent j)) now).signal? i =
      if i = j then some .hear else none := rfl
  unfold dioConsistent
  split
  · rename_i hnone
    refine turns_of_refused he (by simp) ?_
    rw [timer?_eq_none_iff.2 hnone]
    exact .absent
  · rename_i d hd
    refine turns_of_signal he (by simp)
      (u := some ⟨d.hear.bare, n.alarms.deadline? (.advertise j)⟩) ?_ (fun i => ?_) rfl rfl
    · rw [timer?_of_find? hd]
      exact .heard
    · rw [timer?, Outcome.granted, putDodag, Table.find?_insert]
      split
      · rename_i hij
        rw [hij]
        rfl
      · rfl

/-! ## The alarm of a trickle timer -/

omit [RandomSource ρ] in
/-- What a decision hands over: an advertisement, unless enough was heard. -/
theorem takeDecision_state (h : n.takeDecision j d now = .ok m) :
    m.dodags = n.dodags.insert j d.decided ∧
      m.alarms = n.alarms.set (.advertise j) now d.jitter ∧ m.mayAdvertise = n.mayAdvertise ∧
        ∃ new, m.outbox.toList = n.outbox.toList ++ new ∧
          ∀ c ∈ new, d.heard < d.params.redundancy.toNat ∧ c = .dio j d.lookahead := by
  rcases takeDecision_eq_ok h with ⟨hheard, -, k, hk, rfl⟩ | ⟨hheard, -, rfl⟩
  · have hdecided : d.decided =
        { d with phase := .jitter, counts := { d.counts with sent := d.counts.sent + 1 } } := by
      rw [Dodag.decided, if_pos hheard]
    rw [hdecided]
    rcases send_eq_ok hk with ⟨hroom, rfl⟩ | ⟨-, hk⟩
    · refine ⟨rfl, rfl, rfl, [.dio j d.lookahead], ?_,
        fun c hc => ⟨hheard, List.mem_singleton.1 hc⟩⟩
      show (n.outbox.offer (.dio j d.lookahead)).toList = _
      rw [Mailbox.toList_offer]
      exact if_pos hroom
    · obtain ⟨-, rfl⟩ := count_eq_ok hk
      exact ⟨rfl, rfl, rfl, [], (List.append_nil _).symm, fun c hc => absurd hc List.not_mem_nil⟩
  · have hdecided : d.decided =
        { d with
          phase := .jitter
          counts := { d.counts with suppressed := d.counts.suppressed + 1 } } := by
      rw [Dodag.decided, if_neg (by omega)]
    rw [hdecided]
    exact ⟨rfl, rfl, rfl, [], (List.append_nil _).symm, fun c hc => absurd hc List.not_mem_nil⟩

/-- An alarm of a trickle timer concerns that timer, and may queue an advertisement of its
instance. -/
theorem turns_of_ring {u : Option Timer}
    (hstep : Timer.Step ρ p n.latchReady.mayAdvertise (some (.ring due)) (n.timer? j) u)
    (htimers : ∀ i, m.timer? i = if i = j then u else n.timer? i)
    (hlatch : m.mayAdvertise = n.latchReady.mayAdvertise)
    (hbox : ∃ new, m.outbox.toList = n.outbox.toList ++ new ∧ ∀ c ∈ new, ∃ t, n.timer? j = some t ∧
      n.latchReady.mayAdvertise = true ∧ t.state.phase = .listen ∧
        t.state.heard < t.state.params.redundancy.toNat ∧ c = .dio j t.state.lookahead) :
    n.Turns p m (.ring ⟨.advertise j, due⟩) where
  timers := timers_of_signal (fun _ => rfl) hstep htimers
  mayAdvertise hmay := by
    rw [hlatch, latchReady, hmay]
    rfl
  latched _ _ _ := hlatch
  outbox := by
    obtain ⟨new, hnew, hdio⟩ := hbox
    refine ⟨new, hnew, fun i l hmem => ?_⟩
    obtain ⟨t, ht, hready, hphase, hheard, heq⟩ := hdio _ hmem
    obtain ⟨rfl, rfl⟩ := Control.dio.inj heq
    exact ⟨t, due, ht, if_pos rfl, hready, hphase, hheard, rfl⟩

theorem turns_advertiseRings (hdue : n.alarms.deadline? (.advertise j) = some due)
    (h : advertiseRings p { n with alarms := n.alarms.stop (.advertise j) } j due = .ok m) :
    n.Turns p m (.ring ⟨.advertise j, due⟩) := by
  rcases advertiseRings_eq_ok h with ⟨hready, k, hk, rfl⟩ | ⟨hready, ⟨hnone, rfl⟩ | ⟨d, hd, h⟩⟩
  · obtain ⟨-, rfl⟩ := count_eq_ok hk
    refine turns_of_ring (u := (n.timer? j).map fun t =>
      { t with due := some (due + p.postponeDelay) }) ?_ (fun i => ?_) rfl
      ⟨[], (List.append_nil _).symm, fun c hc => absurd hc List.not_mem_nil⟩
    · cases ht : n.timer? j with
      | none => exact .absent
      | some t =>
        obtain ⟨d, -, rfl⟩ := find?_of_timer? ht
        exact .postponed hready hdue
    · by_cases hij : i = j
      · rw [if_pos hij, hij, timer?, timer?, Option.map_map]
        simp [arm, emit, latchReady, Function.comp_def]
      · rw [if_neg hij]
        refine timer?_of_ne rfl ?_
        simp [arm, emit, latchReady, hij]
  · refine turns_of_ring (u := none) ?_ (fun i => ?_) rfl
      ⟨[], (List.append_nil _).symm, fun c hc => absurd hc List.not_mem_nil⟩
    · rw [timer?_eq_none_iff (n := n) |>.2 hnone]
      exact .absent
    · by_cases hij : i = j
      · rw [if_pos hij, hij, timer?_eq_none_iff]
        exact hnone
      · rw [if_neg hij]
        refine timer?_of_ne rfl ?_
        simp [latchReady, hij]
  have ht := timer?_of_find? (n := n) hd
  rw [hdue] at ht
  rcases h with ⟨hphase, h⟩ | ⟨hphase, h⟩
  · obtain ⟨hdodags, halarms, hmay, new, hnew, hdio⟩ := takeDecision_state h
    refine turns_of_ring (u := some ⟨d.decided.bare, some (due + d.jitter)⟩) ?_ (fun i => ?_) hmay
      ⟨new, hnew, fun c hc => ?_⟩
    · rw [ht]
      exact .decided hready rfl hphase
    · refine timer?_update hdodags ?_
      rw [halarms, AlarmTable.deadline?_set]
      by_cases hij : i = j <;> simp [latchReady, hij]
    · obtain ⟨hheard, heq⟩ := hdio c hc
      exact ⟨_, ht, hready, hphase, hheard, heq⟩
  · obtain ⟨split, d', source, hbegin, htimers, hmay, hbox⟩ :=
      timer?_beginInterval (d := d.grow) (by simp [putDodag]) h
    refine turns_of_ring (u := some ⟨d'.bare, some (due + split.listen)⟩) ?_ (fun i => ?_) hmay
      ⟨[], by rw [hbox]; exact (List.append_nil _).symm, fun c hc => absurd hc List.not_mem_nil⟩
    · have hbegin' := Dodag.begin_bare hbegin
      rw [Dodag.bare_grow] at hbegin'
      rw [ht]
      exact .ended hready rfl hphase hbegin'
    · refine (htimers i).trans ?_
      split
      · rfl
      · rename_i hij
        refine timer?_of_ne ?_ ?_
        · simp [putDodag, latchReady, hij]
        · simp [putDodag, latchReady, hij]

/-! ## Every event of a run -/

theorem turns_perform {o : Operation} {out : Outcome (Node ρ)} (ho : o ≠ .handleTimer)
    (h : n.perform p o now = .ok out) : n.Turns p out.state (.request o now) := by
  cases o with
  | join j params => exact turns_join h
  | leave j =>
    rw [← Except.ok.inj h]
    exact turns_leave
  | addParent j a =>
    rw [← Except.ok.inj h]
    exact sameAdverts_addParent.turns fun _ => rfl
  | removeParent j a =>
    rw [← Except.ok.inj h]
    exact sameAdverts_removeParent.turns fun _ => rfl
  | scheduleReception j a delay listen jitter =>
    rw [← Except.ok.inj h]
    exact sameAdverts_scheduleReception.turns fun _ => rfl
  | handleTimer => exact absurd rfl ho
  | command c =>
    cases c with
    | resetDio j force => exact turns_resetDio h
    | scheduleDao j => exact (sameAdverts_scheduleDao h).turns fun _ => rfl
    | dioConsistent j =>
      rw [← Except.ok.inj h]
      exact turns_dioConsistent
    | dioReceived j a l => exact (sameAdverts_dioReceived h).turns fun _ => rfl
    | setPreferred j b =>
      rw [← Except.ok.inj h]
      exact sameAdverts_setPreferred.turns fun _ => rfl
    | solicit j => exact (sameAdverts_solicit h).turns fun _ => rfl
    | restartUpkeep =>
      rw [← Except.ok.inj h]
      exact sameAdverts_restartUpkeep.turns fun _ => rfl

theorem turns_handleRing {r : Ring} {alarms : AlarmTable}
    (hring : n.alarms.ring? now = some (r, alarms)) (h : handleRing p { n with alarms } r = .ok m) :
    n.Turns p m (.ring r) := by
  obtain ⟨hdue, -, rfl, -⟩ := AlarmTable.ring?_eq_some hring
  obtain ⟨q, due⟩ := r
  have hstop (hq : ∀ i, q ≠ .advertise i) : n.SameAdverts { n with alarms := n.alarms.stop q } :=
    sameAdverts_stop hq
  cases q with
  | upkeep => exact ((hstop (by simp)).trans (sameAdverts_upkeepRings h)).turns fun _ => rfl
  | advertise j => exact turns_advertiseRings hdue h
  | report j => exact ((hstop (by simp)).trans (sameAdverts_reportRings h)).turns fun _ => rfl
  | watch j a => exact ((hstop (by simp)).trans (sameAdverts_watchRings h)).turns fun _ => rfl
  | probe j a => exact ((hstop (by simp)).trans (sameAdverts_probeRings h)).turns fun _ => rfl

/-- Every event is a step of every trickle timer. -/
theorem Moment.Valid.turns {x : Moment ρ} (h : x.Valid p) : x.before.Turns p x.after x.event := by
  cases h with
  | request ho hout => exact turns_perform ho hout
  | ring hring hm => exact turns_handleRing hring hm
  | settled => exact (SameAdverts.refl _).turns fun _ => rfl

end Node

end TrickleNet
