import Mathlib
import TrickleNet.Proofs.Cadence
/-!
# What an advertisement changes

An advertisement of the preferred parent changes the record of that parent, its two alarms, and the
samples if it is late (`samples_dioReceived`).  It has no part in the trickle timer
(`Steady.dioReceived`), nor in the counts of windows missed and probes sent (`missed_dioReceived`).
-/

namespace TrickleNet

/-- The alarm of a window that is announced lies ahead. -/
theorem Watch.lt_closing {w : Watch} {delay listen jitter : Span} {now e : Instant}
    (hdelay : 1 ≤ delay.ticks) (hjitter : 1 ≤ jitter.ticks)
    (h : w.closing? delay listen jitter now = some e) : now + Span.ofTicks 1 ≤ e := by
  rw [Instant.le_iff, Instant.ticks_add, Span.ticks_ofTicks]
  unfold closing? at h
  cases hr : w.reception listen jitter now <;> simp only [hr, Option.some.injEq, reduceCtorEq] at h
  all_goals
    rw [← h]
    simp only [Instant.ticks_add, Span.ticks_add]
    omega

namespace Node

variable {ρ : Type} {p : Platform} {n : Node ρ} {i : InstanceId} {a : Address} {d : Dodag}
  {w : Watch} {l : Lookahead} {now due : Instant} {delay listen jitter : Span}
  {out : Outcome (Node ρ)}

/-! ## The prediction of a window -/

theorem samples_scheduleReception :
    (n.scheduleReception i a delay listen jitter now).state.samples = n.samples := by
  unfold scheduleReception
  split
  · rfl
  · split
    · rfl
    · split <;> rfl

theorem counts_scheduleReception :
    (n.scheduleReception i a delay listen jitter now).state.counts = n.counts := by
  unfold scheduleReception
  split
  · rfl
  · split
    · rfl
    · split <;> rfl

theorem Steady.armWatch {after : Span} (hs : n.Steady p i a d due) :
    (n.arm (.watch i a) now after).Steady p i a d due := by
  refine ⟨hs.find, hs.paced, by simpa [Node.arm] using hs.due, ?_⟩
  intro q e he
  by_cases hq : q = .watch i a
  · exact .inr (.inl hq)
  · exact hs.only q e (by simpa [Node.arm, hq] using he)

theorem Steady.scheduleReception (hs : n.Steady p i a d due) :
    ∃ parents, (n.scheduleReception i a delay listen jitter now).state.Steady p i a
      { d with parents } due := by
  unfold Node.scheduleReception
  rw [hs.find]
  dsimp only
  split
  · exact ⟨d.parents, hs⟩
  split
  · exact ⟨d.parents, hs⟩
  · exact ⟨_, Steady.armWatch (hs.of_parents rfl rfl)⟩

/-! ## The advertisement -/

/-- A late advertisement hands out a sample, and no other one does. -/
theorem samples_dioReceived (hd : n.dodags.find? i = some d) (hp : d.preferred = some a)
    (hw : d.parents.find? a = some w) (h : dioReceived p n i a l now = .ok out) :
    out.state.samples = n.samples ++
      if w.reception l.listen (l.jitter + p.receptionSkew) now = .late then
        [⟨i, a, now - w.expected⟩] else [] := by
  rw [dioReceived_eq hd hp hw] at h
  cases hr : w.reception l.listen (l.jitter + p.receptionSkew) now with
  | late =>
    simp only [hr] at h
    obtain ⟨-, -, k, -, -, hsamples, -, rfl⟩ := lateHeard_eq_ok h
    rw [samples_scheduleReception, hsamples]
    rfl
  | first =>
    simp only [hr] at h
    rw [← Except.ok.inj h, firstHeard, samples_scheduleReception]
    split <;> simp [putWatch, emit, Node.putDodag]
  | answer | early | overlooked =>
    simp only [hr] at h
    rw [← Except.ok.inj h]
    simp [answerHeard, putWatch, emit, arm, Node.putDodag]
  | repeated =>
    simp only [hr] at h
    rw [← Except.ok.inj h, samples_scheduleReception]
    simp

/-- An advertisement is no reason to count a window missed or a probe sent. -/
theorem missed_dioReceived (h : dioReceived p n i a l now = .ok out) :
    out.state.counts.windowsMissed = n.counts.windowsMissed ∧
      out.state.counts.probesSent = n.counts.probesSent := by
  by_cases hp : (n.track i a).preferred ∧ (n.track i a).watch.isSome
  swap
  · rw [dioReceived_of_not_preferred hp h]
    exact ⟨rfl, rfl⟩
  obtain ⟨w, hw⟩ := Option.isSome_iff_exists.1 hp.2
  obtain ⟨d, hd, hpref, hfind⟩ := dodag_of_track hp.1 hw
  rw [dioReceived_eq hd hpref hfind] at h
  cases hr : w.reception l.listen (l.jitter + p.receptionSkew) now <;> simp only [hr] at h
  case late =>
    obtain ⟨-, -, k, -, -, -, hcounts, rfl⟩ := lateHeard_eq_ok h
    rw [counts_scheduleReception, hcounts]
    exact ⟨rfl, rfl⟩
  case first =>
    rw [← Except.ok.inj h, firstHeard, counts_scheduleReception]
    split <;> exact ⟨rfl, rfl⟩
  case repeated =>
    rw [← Except.ok.inj h, counts_scheduleReception]
    exact ⟨rfl, rfl⟩
  all_goals
    rw [← Except.ok.inj h]
    exact ⟨rfl, rfl⟩

/-- The trickle timer is not concerned. -/
theorem Steady.dioReceived (hs : n.Steady p i a d due)
    (h : Node.dioReceived p n i a l now = .ok out) :
    ∃ parents, out.state.Steady p i a { d with parents } due := by
  by_cases hp : (n.track i a).preferred ∧ (n.track i a).watch.isSome
  swap
  · rw [dioReceived_of_not_preferred hp h]
    exact ⟨d.parents, hs⟩
  obtain ⟨w, hw⟩ := Option.isSome_iff_exists.1 hp.2
  obtain ⟨e, he, hpref, hfind⟩ := dodag_of_track hp.1 hw
  obtain rfl : d = e := Option.some.inj (hs.find.symm.trans he)
  rw [dioReceived_eq he hpref hfind] at h
  cases hr : w.reception l.listen (l.jitter + p.receptionSkew) now <;> simp only [hr] at h
  case late =>
    obtain ⟨-, -, k, hdodags, halarms, -, -, rfl⟩ := lateHeard_eq_ok h
    obtain ⟨parents, hk⟩ := Steady.scheduleReception (hs.of_parents hdodags halarms)
    exact ⟨parents, hk⟩
  case first =>
    have hput := hs.of_parents (k := n.putWatch i d a { w with stage := .awaitingWindow }) rfl rfl
    have hstop := hput.stop (q := .probe i a) (by simp)
    have hfirst (k : Node ρ) (hdodags : k.dodags = (n.putWatch i d a
        { w with stage := .awaitingWindow }).dodags)
        (halarms : k.alarms = n.alarms.stop (.probe i a)) :
        ∃ parents, (k.scheduleReception i a l.delay l.listen (l.jitter + p.receptionSkew)
          now).state.Steady p i a { d with parents } due := by
      obtain ⟨parents, hk⟩ := (hstop.congr hdodags halarms).scheduleReception
      exact ⟨parents, hk⟩
    rw [← Except.ok.inj h, firstHeard]
    split <;> exact hfirst _ rfl rfl
  case repeated =>
    rw [← Except.ok.inj h]
    exact hs.scheduleReception
  case answer =>
    rw [← Except.ok.inj h]
    exact ⟨_, Steady.armWatch (hs.of_parents rfl rfl)⟩
  case early | overlooked =>
    rw [← Except.ok.inj h]
    exact ⟨d.parents, hs.congr rfl rfl⟩

/-- Alarms that lie ahead still do after an advertisement. -/
theorem Steady.waiting_dioReceived (hs : n.Steady p i a d due)
    (hwaiting : ∀ q e, n.alarms.deadline? q = some e → now + Span.ofTicks 1 ≤ e)
    (hdelay : 1 ≤ l.delay.ticks) (hjitter : 1 ≤ l.jitter.ticks)
    (h : Node.dioReceived p n i a l now = .ok out) :
    ∀ q e, out.state.alarms.deadline? q = some e → now + Span.ofTicks 1 ≤ e := by
  by_cases hp : (n.track i a).preferred ∧ (n.track i a).watch.isSome
  swap
  · rw [dioReceived_of_not_preferred hp h]
    exact hwaiting
  obtain ⟨w, hw⟩ := Option.isSome_iff_exists.1 hp.2
  obtain ⟨e, he, hpref, hfind⟩ := dodag_of_track hp.1 hw
  have htrack := track_dioReceived (i := i) (a := a) he hpref hfind h
  rw [if_pos ⟨rfl, rfl⟩] at htrack
  have hclosing : out.state.alarms.deadline? (.watch i a) = _ := congrArg Track.closing htrack
  have hprobing : out.state.alarms.deadline? (.probe i a) = _ := congrArg Track.probing htrack
  obtain ⟨parents, hs'⟩ := hs.dioReceived h
  have hjitter' : 1 ≤ (l.jitter + p.receptionSkew).ticks := by
    have hle := l.jitter.ticks_le
    rw [Span.ticks_add]
    omega
  intro q e he
  rcases hs'.only q e he with rfl | rfl | rfl
  · rw [hs'.due] at he
    exact hwaiting _ _ (hs.due.trans he)
  · rw [hclosing, Track.hear] at he
    cases hr : w.closing? l.delay l.listen (l.jitter + p.receptionSkew) now with
    | none => exact hwaiting (.watch i a) e (by simpa [hr, track] using he)
    | some e' =>
      obtain rfl : e' = e := by simpa [hr] using he
      exact Watch.lt_closing hdelay hjitter' hr
  · rw [hprobing, Track.hear] at he
    dsimp only at he
    split at he
    · cases he
    · exact hwaiting (.probe i a) e he

end Node

end TrickleNet
