import Mathlib
import TrickleNet.Proofs.Cadence
import TrickleNet.Proofs.Windows
/-!
# A node that advertises

A `Beacon` is a steady node that may advertise and hears nobody else, so each of its intervals ends
in an advertisement.  `Advert.Follows` is what an advertisement promises of the next one: when it
will be sent, and what its delay will be.  `Rings.announcing` says that a beacon keeps this promise,
with at most one advertisement each time its alarms ring.

`Rings.sameRecords` and `Rings.missed_lt` are the other side: what a node knows about its parent
while alarms ring.
-/

namespace TrickleNet

/-- An advertisement that was sent. -/
structure Advert where
  /-- When it was sent. -/
  sentAt : Instant
  /-- What it announces. -/
  lookahead : Lookahead
deriving DecidableEq, Repr

namespace Advert

/-- The second advertisement is sent as the first one announced. -/
structure Follows (x y : Advert) : Prop where
  sentAt : y.sentAt.ticks =
    x.sentAt.ticks + x.lookahead.delay.ticks + x.lookahead.listen.ticks
  delay : y.lookahead.delay = x.lookahead.jitter

/-- The advertisement announces an interval that these parameters allow after another one. -/
structure Sensible (p : Platform) (params : TrickleParams) (x : Advert) : Prop where
  delay_pos : 1 ≤ x.lookahead.delay.ticks
  divides : ∃ e, min (params.minExponent.toNat + 1) params.maxExponent ≤ e ∧
    e ≤ params.maxExponent ∧
    (⟨x.lookahead.listen, x.lookahead.jitter⟩ : Split).Divides (intervalSpan p e)

end Advert

theorem Dodag.Paced.sensible {p : Platform} {d : Dodag} (h : d.Paced p) (t : Instant) :
    (⟨t, d.lookahead⟩ : Advert).Sensible p d.params := by
  obtain ⟨s, hs, hdivides⟩ := h.pending
  refine ⟨h.jitter_pos, d.nextExponent, ?_, Nat.min_le_right _ _, ?_⟩
  · have hmin := h.min_le
    have hmax := h.valid.maxExponent_lt
    simp only [Dodag.nextExponent, TrickleParams.exponentLimit] at *
    omega
  · simpa [Dodag.lookahead, hs] using hdivides

namespace Node

variable {ρ : Type} {p : Platform} {n m : Node ρ} {i : InstanceId} {a : Address}
  {d d' : Dodag} {due due' now : Instant} {params : TrickleParams} {last : Option Advert}
  {ms : List (Moment ρ)}

/-- A node that advertises in every interval, and what its last advertisement says about its trickle
timer. -/
structure Beacon (params : TrickleParams) (n : Node ρ) (d : Dodag) (due : Instant)
    (last : Option Advert) : Prop where
  ready : n.latchReady.mayAdvertise = true
  params_eq : d.params = params
  eager : 0 < params.redundancy.toNat
  unheard : d.heard = 0
  listening : d.phase = .listen → ∀ x ∈ last,
    due = x.sentAt + x.lookahead.delay + x.lookahead.listen ∧ d.jitter = x.lookahead.jitter
  waiting : d.phase = .jitter → ∃ t, last = some ⟨t, d.lookahead⟩ ∧ due = t + d.jitter

/-- A turn of a beacon either sends the advertisement that was promised or keeps the promise for
later. -/
theorem Beacon.turn (hb : n.Beacon params d due last) (ht : Turn p i n m d d' due due')
    (hready : m.mayAdvertise = n.latchReady.mayAdvertise) (hroom : n.outbox.hasRoom = true)
    (hdue : due.ticks < maxTicks) :
    (m.outbox = n.outbox ∧ due' = due + d.lookahead.listen ∧ m.Beacon params d' due' last) ∨
      (m.outbox = n.outbox.offer (.dio i d.lookahead) ∧ due' = due + d.jitter ∧
        m.Beacon params d' due' (some ⟨due, d.lookahead⟩) ∧
        ∀ x ∈ last, x.Follows ⟨due, d.lookahead⟩) := by
  have hlatch : m.latchReady.mayAdvertise = true := by
    rw [latchReady, hready, hb.ready]
    rfl
  cases ht with
  | postponed hnot =>
    rw [hb.ready] at hnot
    cases hnot
  | decided _ hphase hphase' hlook hheard hparams hdue' hsent =>
    right
    have hjitter : d'.jitter = d.jitter := congrArg Lookahead.delay hlook
    refine ⟨hsent ?_ hroom, hdue', ⟨hlatch, hparams.trans hb.params_eq, hb.eager,
      hheard.trans hb.unheard, ?_, ?_⟩, fun x hx => ?_⟩
    · rw [hb.unheard, hb.params_eq]
      exact hb.eager
    · intro hlisten
      rw [hphase'] at hlisten
      cases hlisten
    · intro _
      exact ⟨due, by rw [hlook], by rw [hdue', hjitter]⟩
    · obtain ⟨hx', hxjitter⟩ := hb.listening hphase x hx
      refine ⟨?_, hxjitter⟩
      -- The instant is not the last one, so the sum was not clamped.
      rw [hx'] at hdue ⊢
      simp only [Instant.ticks_add] at hdue ⊢
      omega
  | ended _ hphase hphase' hheard hparams _ hdue' hjitter houtbox =>
    left
    refine ⟨houtbox, hdue', hlatch, hparams.trans hb.params_eq, hb.eager, hheard, ?_, ?_⟩
    · intro _ x hx
      obtain ⟨t, hlast, hdue⟩ := hb.waiting hphase
      obtain rfl := Option.some.inj (hlast.symm.trans hx)
      exact ⟨by rw [hdue', hdue]; rfl, hjitter⟩
    · intro hwait
      rw [hphase'] at hwait
      cases hwait

/-! ## While alarms ring -/

/-- A beacon that watches nobody, and what it has sent at this instant after the advertisement
`last`. -/
structure Announcing (p : Platform) (i : InstanceId) (a : Address) (params : TrickleParams)
    (now : Instant) (last : Option Advert) (n : Node ρ) (d : Dodag) (due : Instant) : Prop where
  steady : n.Steady p i a d due
  ready : now ≤ due
  closing : (n.track i a).closing = none
  probing : (n.track i a).probing = none
  sent : n.outbox = ∅ ∧ n.Beacon params d due last ∨
    ∃ x : Advert, x.sentAt = now ∧ n.outbox.toList = [.dio i x.lookahead] ∧ now < due ∧
      n.Beacon params d due (some x) ∧ (∀ y ∈ last, y.Follows x) ∧ x.Sensible p params

variable [RandomSource ρ]

theorem Announcing.ring {r : Ring} {alarms : AlarmTable}
    (hn : n.Announcing p i a params now last d due) (hnow : now.ticks < maxTicks)
    (hring : n.alarms.ring? now = some (r, alarms)) (h : handleRing p { n with alarms } r = .ok m) :
    ∃ d' due', m.Announcing p i a params now last d' due' := by
  obtain ⟨hd, hle, rfl, -⟩ := AlarmTable.ring?_eq_some hring
  obtain ⟨q, e⟩ := r
  have hwatch : n.alarms.deadline? (.watch i a) = none := hn.closing
  have hprobe : n.alarms.deadline? (.probe i a) = none := hn.probing
  rcases hn.steady.only q e hd with rfl | rfl | rfl
  swap
  · exact absurd (hwatch.symm.trans hd) (by simp)
  swap
  · exact absurd (hprobe.symm.trans hd) (by simp)
  obtain rfl : due = e := Option.some.inj (hn.steady.due.symm.trans hd)
  obtain rfl : due = now := by
    have hge := Instant.le_iff.1 hn.ready
    have hle := Instant.le_iff.1 hle
    exact Instant.ext (Nat.le_antisymm hle hge)
  obtain ⟨d', due', hsteady, hturn, hsame, hready, -⟩ := hn.steady.advertise h
  rcases hn.sent with ⟨hempty, hb⟩ | ⟨x, -, -, hlt, -⟩
  swap
  · exact absurd (Instant.lt_iff.1 hlt) (Nat.lt_irrefl _)
  have hroom : n.outbox.hasRoom = true := by rw [hempty]; rfl
  have hlater (after : Span) : due ≤ due + after := by
    have := due.ticks_le
    rw [Instant.le_iff, Instant.ticks_add]
    omega
  have hclosing : (m.track i a).closing = none := by rw [hsame.tracks]; exact hn.closing
  have hprobing : (m.track i a).probing = none := by rw [hsame.tracks]; exact hn.probing
  rcases hb.turn hturn hready hroom hnow with ⟨houtbox, rfl, hb'⟩ | ⟨houtbox, rfl, hb', hfollows⟩
  · exact ⟨d', _, hsteady, hlater _, hclosing, hprobing, .inl ⟨houtbox.trans hempty, hb'⟩⟩
  · have hpos := hn.steady.paced.jitter_pos
    refine ⟨d', _, hsteady, hlater _, hclosing, hprobing,
      .inr ⟨⟨due, d.lookahead⟩, rfl, ?_, ?_, hb', hfollows, ?_⟩⟩
    · rw [houtbox, hempty, Mailbox.toList_offer]
      rfl
    · rw [Instant.lt_iff, Instant.ticks_add]
      omega
    · rw [← hb.params_eq]
      exact hn.steady.paced.sensible due

theorem Rings.quiet (h : Rings p now n ms m) : m.alarms.ring? now = none := by
  induction h with
  | settled hnone => exact hnone
  | ring _ _ _ ih => exact ih

/-- While its alarms ring, a beacon sends at most one advertisement, and it follows the last one. -/
theorem Rings.announcing (h : Rings p now n ms m) (hnow : now.ticks < maxTicks)
    (hn : n.Announcing p i a params now last d due) :
    ∃ d' due', m.Announcing p i a params now last d' due' := by
  induction h generalizing d due with
  | settled => exact ⟨d, due, hn⟩
  | ring hring hm _ ih =>
    obtain ⟨d', due', hm'⟩ := hn.ring hnow hring hm
    exact ih hm'

/-! ## What is known about the parent while alarms ring -/

omit [RandomSource ρ] in
theorem SameRecords.refl (n : Node ρ) : n.SameRecords n := ⟨fun _ _ => rfl, rfl, rfl, rfl⟩

omit [RandomSource ρ] in
theorem SameRecords.trans {k : Node ρ} (h : n.SameRecords m) (h' : m.SameRecords k) :
    n.SameRecords k :=
  ⟨h.tracks.trans h'.tracks, h'.samples.trans h.samples, h'.missed.trans h.missed,
    h'.probes.trans h.probes⟩

/-- As long as the window of the parent is open, alarms that ring are not about it. -/
theorem Rings.sameRecords (h : Rings p now n ms m) (hs : n.Steady p i a d due)
    (hclosing : ∀ e, n.alarms.deadline? (.watch i a) = some e → now < e)
    (hprobing : ∀ e, n.alarms.deadline? (.probe i a) = some e → now < e) : n.SameRecords m := by
  induction h generalizing d due with
  | settled => exact .refl _
  | @ring n m k r alarms ms hring hm _ ih =>
    obtain ⟨hd, hle, rfl, -⟩ := AlarmTable.ring?_eq_some hring
    obtain ⟨q, e⟩ := r
    have hle : e.ticks ≤ now.ticks := hle
    rcases hs.only q e hd with rfl | rfl | rfl
    swap
    · exact absurd (Instant.lt_iff.1 (hclosing e hd)) (by omega)
    swap
    · exact absurd (Instant.lt_iff.1 (hprobing e hd)) (by omega)
    obtain rfl : due = e := Option.some.inj (hs.due.symm.trans hd)
    obtain ⟨d', due', hsteady, -, hsame, -, -⟩ := hs.advertise hm
    have hwatch : m.alarms.deadline? (.watch i a) = n.alarms.deadline? (.watch i a) :=
      congrArg Track.closing (hsame.tracks i a)
    have hprobe : m.alarms.deadline? (.probe i a) = n.alarms.deadline? (.probe i a) :=
      congrArg Track.probing (hsame.tracks i a)
    rw [← hwatch] at hclosing
    rw [← hprobe] at hprobing
    exact hsame.trans (ih hsteady hclosing hprobing)

omit [RandomSource ρ] in
theorem missed_sendProbe (h : n.sendProbe i a = .ok m) :
    m.counts.windowsMissed = n.counts.windowsMissed := by
  obtain ⟨k, hk, h⟩ := Checked.bind_eq_ok_iff.1 h
  obtain ⟨-, rfl⟩ := count_eq_ok hk
  rcases send_eq_ok h with ⟨-, rfl⟩ | ⟨-, h⟩
  · rfl
  · obtain ⟨-, rfl⟩ := count_eq_ok h
    rfl

/-- The count of windows missed never falls, and the alarm of a window raises it. -/
theorem Steady.missed_ring {r : Ring} {alarms : AlarmTable} (hs : n.Steady p i a d due)
    (hsound : n.SoundTracks) (hring : n.alarms.ring? now = some (r, alarms))
    (h : handleRing p { n with alarms } r = .ok m) :
    n.counts.windowsMissed ≤ m.counts.windowsMissed ∧
      (r.purpose = .watch i a → n.counts.windowsMissed < m.counts.windowsMissed) ∧
      (r.purpose ≠ .watch i a →
        m.alarms.deadline? (.watch i a) = n.alarms.deadline? (.watch i a)) := by
  obtain ⟨hd, -, rfl, -⟩ := AlarmTable.ring?_eq_some hring
  obtain ⟨q, e⟩ := r
  rcases hs.only q e hd with rfl | rfl | rfl
  · obtain rfl : due = e := Option.some.inj (hs.due.symm.trans hd)
    obtain ⟨d', due', -, -, hsame, -, -⟩ := hs.advertise h
    exact ⟨Nat.le_of_eq hsame.missed.symm, by simp,
      fun _ => congrArg Track.closing (hsame.tracks i a)⟩
  · have hlt : n.counts.windowsMissed < m.counts.windowsMissed := by
      rcases watchRings_eq_ok h with ⟨-, hnot⟩ | ⟨d', w, k, -, -, -, hk, rfl⟩
      · have hp : (n.track i a).preferred := by
          by_contra hp
          have hnone : n.alarms.deadline? (.watch i a) = none := ((hsound i a).idle hp).1
          exact absurd (hnone.symm.trans hd) (by simp)
        obtain ⟨w, hw⟩ := (hsound i a).registered hp
        rw [track_stop] at hnot
        exact absurd ⟨hp, by simp [hw]⟩ hnot
      · obtain ⟨-, rfl⟩ := count_eq_ok hk
        exact Nat.lt_succ_self _
    exact ⟨Nat.le_of_lt hlt, fun _ => hlt, by simp⟩
  · rcases probeRings_eq_ok h with ⟨rfl, -⟩ | ⟨-, -, k, hk, rfl⟩
    · exact ⟨Nat.le_refl _, by simp, fun _ => by simp⟩
    · obtain ⟨after, -, harm⟩ := deadline?_armProbe p k i a e
      have hmissed := missed_sendProbe hk
      obtain ⟨outbox, counts, trace, rfl⟩ := sendProbe_unchanged hk
      refine ⟨Nat.le_of_eq hmissed.symm, by simp, fun _ => ?_⟩
      rw [harm]
      simp

theorem Rings.missed_le (h : Rings p now n ms m) (hs : n.Steady p i a d due)
    (hsound : n.SoundTracks) (hnow : now.ticks < maxTicks) (hpostpone : 1 ≤ p.postponeDelay.ticks) :
    n.counts.windowsMissed ≤ m.counts.windowsMissed := by
  induction h generalizing d due with
  | settled => exact Nat.le_refl _
  | ring hring hm _ ih =>
    obtain ⟨d', due', hsteady, -⟩ := hs.ring hring hnow hpostpone hm
    have hvalid := Moment.Valid.ring (p := p) hring hm
    exact (hs.missed_ring hsound hring hm).1.trans (ih hsteady (hvalid.soundTracks hsound))

/-- A window that closes while alarms ring is missed. -/
theorem Rings.missed_lt {e : Instant} (h : Rings p now n ms m) (hs : n.Steady p i a d due)
    (hsound : n.SoundTracks) (hnow : now.ticks < maxTicks) (hpostpone : 1 ≤ p.postponeDelay.ticks)
    (hclosing : n.alarms.deadline? (.watch i a) = some e) (hle : e ≤ now) :
    n.counts.windowsMissed < m.counts.windowsMissed := by
  induction h generalizing d due with
  | settled hnone =>
    have hlt := AlarmTable.ring?_eq_none_iff.1 hnone _ _ hclosing
    rw [Instant.lt_iff] at hlt
    rw [Instant.le_iff] at hle
    omega
  | @ring n m k r alarms ms hring hm hrest ih =>
    obtain ⟨d', due', hsteady, -⟩ := hs.ring hring hnow hpostpone hm
    have hsound' : m.SoundTracks := (Moment.Valid.ring (p := p) hring hm).soundTracks hsound
    obtain ⟨hmono, hlt, hsame⟩ := hs.missed_ring hsound hring hm
    by_cases hq : r.purpose = .watch i a
    · exact (hlt hq).trans_le (hrest.missed_le hsteady hsound' hnow hpostpone)
    · rw [← hsame hq] at hclosing
      exact hmono.trans_lt (ih hsteady hsound' hclosing)

end Node

end TrickleNet
