import Mathlib
import TrickleNet.Proofs.Requests
import TrickleNet.Proofs.Settling
/-!
# Alarms that lie ahead

A node is `Node.Ahead` at an instant if none of its alarms is due before it.  Plain requests made at
that instant keep it so, since they set alarms for some time after it (`Ahead.plain`).  In a call
that lets alarms ring at that instant, each one that rings is due exactly then (`Rung.onTime`), and
all that are due ring (`Rung.rings_or_later`).
-/

namespace TrickleNet

namespace Node

variable {ρ : Type} {p : Platform} {n m k : Node ρ} {i : InstanceId} {a : Address} {d : Dodag}
  {q : Purpose} {now due : Instant} {after : Span}

/-- No alarm is due before `now`. -/
def Ahead (n : Node ρ) (now : Instant) : Prop := ∀ q d, n.alarms.deadline? q = some d → now ≤ d

theorem Ahead.congr (hn : n.Ahead now) (halarms : m.alarms = n.alarms) : m.Ahead now := by
  rw [Ahead, halarms]
  exact hn

/-- An alarm may be set to ring some time after `now`. -/
theorem Ahead.set (hn : n.Ahead now) (halarms : m.alarms = n.alarms.set q now after) :
    m.Ahead now := by
  intro q' d hd
  rw [halarms, AlarmTable.deadline?_set] at hd
  split at hd
  · rw [← Option.some.inj hd]
    exact Instant.le_add now after
  · exact hn q' d hd

theorem Ahead.stop (hn : n.Ahead now) (halarms : m.alarms = n.alarms.stop q) : m.Ahead now := by
  intro q' d hd
  rw [halarms, AlarmTable.deadline?_stop] at hd
  split at hd
  · cases hd
  · exact hn q' d hd

theorem Ahead.forgetAlarms (hn : n.Ahead now) : (n.forgetAlarms i a).Ahead now := by
  intro q d hd
  simp only [Node.forgetAlarms, AlarmTable.deadline?_remove] at hd
  split at hd
  · cases hd
  split at hd
  · cases hd
  · exact hn q d hd

theorem Ahead.scheduleReception {delay listen jitter : Span} (hn : n.Ahead now) :
    (n.scheduleReception i a delay listen jitter now).state.Ahead now := by
  unfold Node.scheduleReception
  split
  · exact hn
  split
  · exact hn
  split
  · exact hn
  · exact hn.set rfl

theorem Ahead.dioReceived {l : Lookahead} {out : Outcome (Node ρ)} (hn : n.Ahead now)
    (h : dioReceived p n i a l now = .ok out) : out.state.Ahead now := by
  by_cases hp : (n.track i a).preferred ∧ (n.track i a).watch.isSome
  swap
  · rw [dioReceived_of_not_preferred hp h]
    exact hn
  obtain ⟨w, hw⟩ := Option.isSome_iff_exists.1 hp.2
  obtain ⟨d, hd, hpref, hfind⟩ := dodag_of_track hp.1 hw
  rw [dioReceived_eq hd hpref hfind] at h
  cases hr : w.reception l.listen (l.jitter + p.receptionSkew) now with
  | first =>
    simp only [hr] at h
    rw [← Except.ok.inj h, firstHeard]
    refine Ahead.scheduleReception ?_
    split
    · exact hn.stop (q := .probe i a) rfl
    · exact hn.stop (q := .probe i a) rfl
  | answer =>
    simp only [hr] at h
    rw [← Except.ok.inj h, answerHeard]
    exact hn.set rfl
  | late =>
    simp only [hr] at h
    obtain ⟨-, -, k, -, halarms, -, -, rfl⟩ := lateHeard_eq_ok h
    exact (hn.congr halarms).scheduleReception
  | repeated =>
    simp only [hr] at h
    rw [← Except.ok.inj h]
    exact hn.scheduleReception
  | early | overlooked =>
    simp only [hr] at h
    rw [← Except.ok.inj h]
    exact hn.congr rfl

theorem Ahead.setPreferred {b : Option Address} (hn : n.Ahead now) :
    (n.setPreferred i b).state.Ahead now := by
  unfold Node.setPreferred
  split
  · exact hn
  split
  · exact hn
  split
  · exact hn
  split
  · exact hn.congr rfl
  · exact (hn.congr rfl).forgetAlarms

theorem Ahead.addParent (hn : n.Ahead now) : (addParent p n i a).state.Ahead now := by
  unfold Node.addParent
  split
  · exact hn
  split
  · exact hn
  split
  · exact hn
  · exact hn.congr rfl

theorem Ahead.dioConsistent (hn : n.Ahead now) : (n.dioConsistent i).state.Ahead now := by
  unfold Node.dioConsistent
  split
  · exact hn
  · exact hn.congr rfl

/-! ## What is owed to alarms that lie ahead -/

/-- What is not overdue has been due for one step at most. -/
theorem lag?_le_one {due : Option Instant} (h : ∀ d, due = some d → now ≤ d) :
    lag? due now ≤ 1 := by
  cases due with
  | none => exact Nat.zero_le 1
  | some d =>
    have hle := h d rfl
    rw [Instant.le_iff] at hle
    rw [lag?_some, Instant.lag]
    split <;> omega

/-- Of the alarms of an instance that are due now, four may ring, and the trickle timer once
more. -/
theorem Ahead.debt_le (hn : n.Ahead now) (i : InstanceId) : n.debt now i ≤ 5 := by
  have hlag (q : Purpose) : lag? (n.alarms.deadline? q) now ≤ 1 := lag?_le_one (hn q)
  have hturn : n.turnDebt now i ≤ 2 := by
    unfold turnDebt
    split
    · rename_i d due _ hdue
      have hdue' := hlag (.advertise i)
      rw [hdue, lag?_some] at hdue'
      unfold Dodag.turnLag
      split <;> omega
    · exact Nat.zero_le 2
  have hparent : n.parentDebt now i ≤ 2 := by
    unfold parentDebt
    split
    · rename_i a _
      exact Nat.add_le_add (hlag (.watch i a)) (hlag (.probe i a))
    · exact Nat.zero_le 2
  have hreport := hlag (.report i)
  rw [debt]
  omega

theorem Ahead.backlog_le (hn : n.Ahead now) : n.backlog now ≤ 1 + 5 * n.dodags.size := by
  have hupkeep : lag? (n.alarms.deadline? .upkeep) now ≤ 1 := lag?_le_one (hn .upkeep)
  have hsum := List.sum_le_card_nsmul (n.dodags.keys.map (n.debt now)) 5 (by
    simpa using fun i _ => hn.debt_le i)
  rw [List.length_map, Table.length_keys, smul_eq_mul] at hsum
  rw [backlog]
  omega

/-! ## Requests that draw -/

variable [RandomSource ρ] {ms : List (Moment ρ)}

theorem Ahead.resetDio {force : Bool} {out : Outcome (Node ρ)} (hn : n.Ahead now)
    (h : resetDio p n i force now = .ok out) : out.state.Ahead now := by
  rcases resetDio_eq_ok h with hsame | ⟨d, k, -, hk, hm⟩
  · rw [hsame]
    exact hn
  · obtain ⟨-, rfl⟩ := count_eq_ok hk
    obtain ⟨split, d', source, -, hm⟩ := beginInterval_eq_ok (d := d.restart)
      (by simp [emit, putDodag]) hm
    rw [hm]
    exact hn.set rfl

theorem Ahead.scheduleDao {out : Outcome (Node ρ)} (hn : n.Ahead now)
    (h : scheduleDao p n i now = .ok out) : out.state.Ahead now := by
  unfold Node.scheduleDao at h
  split at h
  · rw [← Except.ok.inj h]
    exact hn
  split at h
  · rw [← Except.ok.inj h]
    exact hn.congr rfl
  · obtain ⟨ticks, -, h⟩ := Checked.bind_eq_ok_iff.1 h
    rw [← Except.ok.inj h]
    exact hn.set rfl

theorem Ahead.join {params : TrickleParams} {out : Outcome (Node ρ)} (hn : n.Ahead now)
    (h : join p n i params now = .ok out) : out.state.Ahead now := by
  unfold Node.join at h
  split at h
  · rw [← Except.ok.inj h]
    exact hn
  split at h
  · rw [← Except.ok.inj h]
    exact hn
  split at h
  · rw [← Except.ok.inj h]
    exact hn
  · exact (hn.congr (m := n.putDodag i (.new params)) rfl).resetDio h

/-- A plain request sets no alarm for an instant before it is made. -/
theorem Ahead.plain {o : Operation} {out : Outcome (Node ρ)} (hn : n.Ahead now) (ho : o.Plain i)
    (h : n.perform p o now = .ok out) : out.state.Ahead now := by
  cases ho with
  | join params => exact hn.join h
  | addParent a =>
    cases h
    exact hn.addParent
  | setPreferred a =>
    cases h
    exact hn.setPreferred
  | scheduleDao => exact hn.scheduleDao h
  | dioConsistent =>
    cases h
    exact hn.dioConsistent
  | dioReceived a l => exact hn.dioReceived h
  | resetDio => exact hn.resetDio h
  | restartUpkeep =>
    cases h
    exact hn.set rfl

/-! ## Calls that let alarms ring on time -/

/-- An alarm rings at its deadline, which is `now`.  It was armed for that instant, and its handler
finds it silent, so it rings once. -/
def Moment.OnTime (p : Platform) (now : Instant) (x : Moment ρ) : Prop :=
  ∃ q, x.event = .ring ⟨q, now⟩ ∧ x.before.alarms.deadline? q = some now ∧
    (x.before.alarms.stop q).deadline? q = none ∧
    handleRing p { x.before with alarms := x.before.alarms.stop q } ⟨q, now⟩ = .ok x.after

/-- As long as the alarms of a node lie ahead, all that ring do so on time. -/
theorem Rung.onTime (h : Rung p now n ms k) (hn : n.SoundTracks ∧ n.Orderly p) (ha : n.Ahead now) :
    (∀ x ∈ ms, x.OnTime p now) ∧ k.Ahead now := by
  induction h with
  | start => exact ⟨fun x hx => absurd hx List.not_mem_nil, ha⟩
  | @ring n m k r alarms ms hring hm _ ih =>
    obtain ⟨hd, hle, rfl, hfirst⟩ := AlarmTable.ring?_eq_some hring
    obtain ⟨hrang, hm'⟩ := ring_orderly hn hring hm
    have hnow : r.deadline = now := by
      have hge := ha _ _ hd
      rw [Instant.le_iff] at hge hle
      rw [Instant.ext_iff]
      omega
    obtain ⟨q, e⟩ := r
    subst hnow
    obtain ⟨hrest, hk⟩ := ih hm' fun q d => hrang.le_of_deadline? hfirst
    refine ⟨fun x hx => ?_, hk⟩
    rcases List.mem_cons.1 hx with rfl | hx
    · exact ⟨q, rfl, hd, by simp, hm⟩
    · exact hrest x hx

omit [RandomSource ρ] in
theorem isArmed_restartUpkeep : (restartUpkeep p n now).alarms.isArmed .upkeep = true := by
  rw [AlarmTable.isArmed_iff, restartUpkeep, arm]
  exact ⟨now + p.upkeepInterval, by simp⟩

/-- No request stops the ticker.  Only one touches it, and that one sets it. -/
theorem ticking_perform {o : Operation} {out : Outcome (Node ρ)} (ho : o ≠ .handleTimer)
    (h : n.perform p o now = .ok out) (harmed : n.alarms.isArmed .upkeep = true) :
    out.state.alarms.isArmed .upkeep = true := by
  by_cases hticker : .upkeep ∈ o.footprint.alarms
  · obtain rfl : o = .command .restartUpkeep := by
      rcases o with _ | _ | _ | _ | _ | _ | c
      case command => cases c <;> simp_all
      all_goals simp_all [Purpose.inst?]
    cases h
    exact isArmed_restartUpkeep
  · rw [AlarmTable.isArmed, (confined_perform ho h).deadline? hticker]
    exact harmed

/-- It is set again whenever it rings. -/
theorem Rung.ticking (h : Rung p now n ms k) (hn : n.SoundTracks ∧ n.Orderly p)
    (harmed : n.alarms.isArmed .upkeep = true) : k.alarms.isArmed .upkeep = true := by
  induction h with
  | start => exact harmed
  | @ring n m k r alarms ms hring hm _ ih =>
    obtain ⟨hrang, hm'⟩ := ring_orderly hn hring hm
    refine ih hm' ?_
    by_cases hq : .upkeep = r.purpose
    · obtain ⟨q, e⟩ := r
      subst hq
      cases hrang with
      | ticked _ halarms =>
        rw [AlarmTable.isArmed_iff, halarms, AlarmTable.deadline?_set, if_pos rfl]
        exact ⟨_, rfl⟩
    · exact hrang.armed hq harmed

/-! ## How many alarms ring on time -/

/-- In a call that lets alarms ring on time there are few of them. -/
theorem Rung.length_le_of_ahead (h : Rung p now n ms k) (hn : n.SoundTracks ∧ n.Orderly p)
    (ha : n.Ahead now) (harmed : n.alarms.isArmed .upkeep = true)
    (hsettled : k.alarms.ring? now = none) (hupkeep : 1 ≤ p.upkeepInterval.ticks)
    (hpostpone : 1 ≤ p.postponeDelay.ticks) : ms.length ≤ 1 + 5 * n.dodags.size := by
  -- The ticker still waits, so the present is not the last instant there is.
  have hnow : now.ticks < maxTicks := by
    obtain ⟨d, hd⟩ := AlarmTable.isArmed_iff.1 (h.ticking hn harmed)
    have hlt := AlarmTable.ring?_eq_none_iff.1 hsettled .upkeep d hd
    have hle := d.ticks_le
    rw [Instant.lt_iff] at hlt
    omega
  have hlength := (h.length_add_le (ring_backlog hupkeep hpostpone hnow) hn).2
  have hbacklog := ha.backlog_le
  omega

end Node

end TrickleNet
