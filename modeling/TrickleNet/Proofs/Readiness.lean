import Mathlib
import TrickleNet.Proofs.Debounce
import TrickleNet.Proofs.Trickle
/-!
# Readiness is latched

A node that may advertise has seen at some alarm of a trickle timer that its link-local address was
usable (`Moment.Latches`), and it remembers that whatever becomes of the address
(`Trail.staysReady`).  The alarms of reports look at the address as well, but do not set the latch.

Decisions are taken by instances, and the latch belongs to the node.  Since no trickle timer gets
past its first decision before the latch is set, all instances wait in their shortest interval until
then (`Trail.waits`), and each alarm tries again one delay after the deadline of the one before.
-/

namespace TrickleNet

/-- The first decision of the instance is still to come, in its shortest interval. -/
structure Dodag.Waits (d : Dodag) : Prop where
  phase : d.phase = .listen
  exponent : d.exponent = d.params.minExponent.toNat
  sent : d.counts.sent = 0
  suppressed : d.counts.suppressed = 0

/-- The parents have no part in it. -/
theorem Dodag.waits_of_bare {d : Dodag} (h : d.bare.Waits) : d.Waits :=
  ⟨h.phase, h.exponent, h.sent, h.suppressed⟩

namespace Node

variable {ρ : Type} {p : Platform} {n m k : Node ρ} {x : Moment ρ} {i : InstanceId}
  {d d' : Dodag} {t : Timer} {c : Counter} {e now : Instant} {ms : List (Moment ρ)}

/-! ## What looks at the address -/

theorem latchReady_mayAdvertise (n : Node ρ) :
    n.latchReady.mayAdvertise = true ↔ n.mayAdvertise = true ∨ n.addressReady = true :=
  Bool.or_eq_true_iff

/-- The alarm of a trickle timer means to that timer that it rings. -/
theorem signal?_of_ring (hevent : x.event = .ring ⟨.advertise i, e⟩) :
    x.event.signal? i = some (.ring e) := by
  rw [hevent]
  exact if_pos rfl

/-- Only the alarms of trickle timers may set the latch. -/
theorem Event.eq_ring_of_latches {e : Event} (h : e.footprint.latches) :
    ∃ i due, e = .ring ⟨.advertise i, due⟩ := by
  cases e with
  | request o now =>
    cases o with
    | command c => cases c <;> simp at h
    | join | leave | addParent | removeParent | scheduleReception | handleTimer => simp at h
  | ring r =>
    obtain ⟨q, due⟩ := r
    cases q with
    | advertise i => exact ⟨i, due, rfl⟩
    | upkeep | report | watch | probe => simp at h
  | settled => simp at h

/-- Only the alarms of trickle timers and of reports count as postponed. -/
theorem Event.eq_ring_of_postponed {e : Event} (hc : c = .dioPostponed ∨ c = .daoPostponed)
    (h : c ∈ e.footprint.counters) :
    (∃ i due, e = .ring ⟨.advertise i, due⟩) ∨ ∃ i due, e = .ring ⟨.report i, due⟩ := by
  cases e with
  | request o now =>
    cases o with
    | command c => cases c <;> rcases hc with rfl | rfl <;> simp at h
    | join | leave | addParent | removeParent | scheduleReception | handleTimer =>
      rcases hc with rfl | rfl <;> simp at h
  | ring r =>
    obtain ⟨q, due⟩ := r
    cases q with
    | advertise i => exact .inl ⟨i, due, rfl⟩
    | report i => exact .inr ⟨i, due, rfl⟩
    | upkeep | watch | probe => rcases hc with rfl | rfl <;> simp at h
  | settled => simp at h

/-- Only the alarm of a report queues one. -/
theorem Event.eq_ring_of_dao {e : Event} {a : Address} {lifetime : UInt8}
    (h : .dao i a lifetime ∈ e.footprint.messages) : ∃ due, e = .ring ⟨.report i, due⟩ := by
  cases e with
  | request o now =>
    cases o with
    | command c => cases c <;> simp at h
    | join | leave | addParent | removeParent | scheduleReception | handleTimer => simp at h
  | ring r =>
    obtain ⟨q, due⟩ := r
    cases q with
    | report j =>
      obtain ⟨b, l, heq⟩ := h
      obtain ⟨rfl, -, -⟩ := Control.dao.inj heq
      exact ⟨due, rfl⟩
    | upkeep | advertise | watch | probe => simp at h
  | settled => simp at h

/-- A node that may advertise postpones no report. -/
theorem reportRings_counts (h : reportRings p n i now = .ok m) (hmay : n.mayAdvertise = true)
    (hc : c ≠ .daoSent) (hc' : c ≠ .controlDropped) : m.counts.get c = n.counts.get c := by
  have hconfined : n.Confined { (Purpose.report i).footprint with
      counters := {.daoSent, .controlDropped} } m := by
    refine (Confined.refl n).reportRings rfl (fun a l => ⟨a, l, rfl⟩) (.inl rfl) (.inr rfl) ?_ h
    exact fun hnot => absurd (hmay.symm.trans hnot) (by simp)
  exact hconfined.counts c (by simp [hc, hc'])

/-! ## The latch -/

/-- A trickle timer rings, and the node sees for the first time that its link-local address is
usable. -/
structure Moment.Latches (x : Moment ρ) : Prop where
  rings : ∃ i e, x.event = .ring ⟨.advertise i, e⟩
  ready : x.before.addressReady = true
  before : x.before.mayAdvertise = false
  after : x.after.mayAdvertise = true

/-- The node may advertise, and has postponed as much as before. -/
structure StaysReady (n m : Node ρ) : Prop where
  mayAdvertise : m.mayAdvertise = true
  dioPostponed : m.counts.dioPostponed = n.counts.dioPostponed
  daoPostponed : m.counts.daoPostponed = n.counts.daoPostponed

variable [RandomSource ρ]

/-- The latch is set where a trickle timer rings and the address is usable. -/
theorem Moment.Valid.latches (h : x.Valid p) (hbefore : x.before.mayAdvertise = false)
    (hafter : x.after.mayAdvertise = true) : x.Latches := by
  by_cases hf : x.event.footprint.latches
  · obtain ⟨i, e, hevent⟩ := Event.eq_ring_of_latches hf
    have hready := (h.turns.latched i e (signal?_of_ring hevent)).symm.trans hafter
    rw [latchReady_mayAdvertise, hbefore] at hready
    exact ⟨⟨i, e, hevent⟩, by simpa using hready, hbefore, hafter⟩
  · rw [h.confined.latch hf, hbefore] at hafter
    cases hafter

/-- A node that may advertise has latched that its address was usable. -/
theorem Trail.exists_latches (h : Trail p n ms k) (hn : n.mayAdvertise = false)
    (hk : k.mayAdvertise = true) : ∃ y ∈ ms, y.Latches := by
  refine h.snoc_induction (motive := fun ms k => k.mayAdvertise = true → ∃ y ∈ ms, y.Latches)
    ?_ ?_ ?_ hk
  · intro hmay
    rw [hn] at hmay
    cases hmay
  · intro ms n m hsame ih hmay
    exact ih (hsame.mayAdvertise.symm.trans hmay)
  · intro ms x hx ih hafter
    by_cases hbefore : x.before.mayAdvertise = true
    · obtain ⟨y, hy, hlatches⟩ := ih hbefore
      exact ⟨y, List.mem_append_left _ hy, hlatches⟩
    · exact ⟨x, List.mem_append_right _ List.mem_cons_self,
        hx.latches (Bool.eq_false_iff.2 hbefore) hafter⟩

/-- A node that may advertise postpones no advertisement. -/
theorem advertiseRings_counts (h : advertiseRings p n i now = .ok m) (hmay : n.mayAdvertise = true)
    (hc : c ≠ .controlDropped) : m.counts.get c = n.counts.get c := by
  have hlatched : n.latchReady.mayAdvertise = true := (latchReady_mayAdvertise n).2 (.inl hmay)
  have hconfined : n.Confined { (Purpose.advertise i).footprint with counters := {.controlDropped} }
      m := by
    refine (Confined.refl n).advertiseRings rfl rfl (fun l => ⟨l, rfl⟩) rfl trivial ?_ h
    exact fun hnot => absurd (hlatched.symm.trans hnot) (by simp)
  exact hconfined.counts c hc

/-- A node that may advertise postpones nothing. -/
theorem Moment.Valid.counts_postponed (h : x.Valid p) (hmay : x.before.mayAdvertise = true)
    (hc : c = .dioPostponed ∨ c = .daoPostponed) :
    x.after.counts.get c = x.before.counts.get c := by
  by_cases hmem : c ∈ x.event.footprint.counters
  swap
  · exact h.confined.counts c hmem
  have hne : c ≠ .daoSent ∧ c ≠ .controlDropped := by
    rcases hc with rfl | rfl <;> simp
  rcases Event.eq_ring_of_postponed hc hmem with ⟨i, e, hevent⟩ | ⟨i, e, hevent⟩
  · exact (advertiseRings_counts (h.rang hevent).2 hmay hne.2 :)
  · exact (reportRings_counts (h.rang hevent).2 hmay hne.1 hne.2 :)

/-- Once it may advertise, a node stays ready, whatever becomes of its address. -/
theorem Trail.staysReady (h : Trail p n ms k) (hn : n.mayAdvertise = true) : n.StaysReady k := by
  refine h.snoc_induction (motive := fun _ k => n.StaysReady k) ⟨hn, rfl, rfl⟩ ?_ ?_
  · intro ms m k hsame ih
    have hmay := hsame.mayAdvertise.trans ih.mayAdvertise
    refine ⟨hmay, ?_, ?_⟩
    · rw [hsame.counts, ih.dioPostponed]
    · rw [hsame.counts, ih.daoPostponed]
  · intro ms x hx ih
    refine ⟨hx.turns.mayAdvertise ih.mayAdvertise, ?_, ?_⟩
    · exact (hx.counts_postponed ih.mayAdvertise (c := .dioPostponed) (.inl rfl)).trans
        ih.dioPostponed
    · exact (hx.counts_postponed ih.mayAdvertise (c := .daoPostponed) (.inr rfl)).trans
        ih.daoPostponed

/-! ## Before the latch is set -/

/-- A shortest interval that begins leaves the counts of decisions as they are. -/
theorem waits_of_begin {split : Split} {source source' : ρ}
    (h : d.restart.begin p source = .ok (split, d', source')) (hsent : d.counts.sent = 0)
    (hsuppressed : d.counts.suppressed = 0) : d'.Waits := by
  obtain ⟨middle, next, -, -, -, -, rfl⟩ := Dodag.begin_eq_ok h
  exact ⟨rfl, rfl, hsent, hsuppressed⟩

/-- As long as the latch is not set, no trickle timer gets past its first decision. -/
theorem Moment.Valid.waits (h : x.Valid p) (hafter : x.after.mayAdvertise = false)
    (hbefore : ∀ t ∈ x.before.timer? i, t.state.Waits) : ∀ t ∈ x.after.timer? i, t.state.Waits := by
  intro t' ht'
  cases ht : x.before.timer? i with
  | none =>
    obtain ⟨params, now, split, source, source', -, -, hbegin, -⟩ := h.joined ht ht'
    exact waits_of_begin hbegin rfl rfl
  | some t =>
    have hwaits := hbefore t ht
    have hready {due : Instant} (hsignal : x.event.signal? i = some (.ring due)) :
        x.before.latchReady.mayAdvertise = false :=
      (h.turns.latched i due hsignal).symm.trans hafter
    cases h.course ht with
    | idle _ _ _ _ _ hsame =>
      obtain rfl := Option.some.inj (ht'.symm.trans hsame)
      cases x.hears i
      · exact hwaits
      · exact ⟨hwaits.phase, hwaits.exponent, hwaits.sent, hwaits.suppressed⟩
    | postponed _ _ _ _ _ hsame =>
      obtain rfl := Option.some.inj (ht'.symm.trans hsame)
      exact hwaits
    | decided hsignal _ hmay | ended hsignal _ hmay =>
      rw [hready hsignal] at hmay
      cases hmay
    | reset _ _ _ _ hbegin hsame =>
      obtain rfl := Option.some.inj (ht'.symm.trans hsame)
      exact waits_of_begin hbegin hwaits.sent hwaits.suppressed
    | left _ _ _ hnone =>
      rw [hnone] at ht'
      cases ht'

/-- All instances of a node that has not latched wait for their first decision. -/
theorem Trail.waits (h : Trail p n ms k) (hn : ∀ i, n.timer? i = none) (hk : k.mayAdvertise = false)
    (hd : k.dodags.find? i = some d) : d.Waits := by
  have hinv : ∀ t ∈ k.timer? i, t.state.Waits := by
    refine h.snoc_induction (motive := fun _ k => k.mayAdvertise = false →
      ∀ t ∈ k.timer? i, t.state.Waits) ?_ ?_ ?_ hk
    · intro _ t ht
      rw [hn] at ht
      cases ht
    · intro ms n m hsame ih hm
      rw [hsame.timer?]
      exact ih (hsame.mayAdvertise.symm.trans hm)
    · intro ms x hx ih hafter
      refine hx.waits hafter (ih ?_)
      by_contra hmay
      rw [hx.turns.mayAdvertise (Bool.not_eq_false _ |>.mp hmay)] at hafter
      cases hafter
  exact Dodag.waits_of_bare (hinv _ (timer?_of_find? hd))

/-- The alarm of a trickle timer stays set as it is until it rings, a reset takes effect, or the
instance is left. -/
theorem Trail.advertisement_waits (h : Trail p n ms k) (ht : n.timer? i = some t)
    (hms : ∀ x ∈ ms, x.fires i = false ∧ x.resets i = false ∧ x.leaves i = false) :
    k.alarms.deadline? (.advertise i) = t.due := by
  have hinv : ∃ t', k.timer? i = some t' ∧ t'.due = t.due := by
    refine Trail.timer_induction (motive := fun _ t' => t'.due = t.due) rfl ?_ h ht hms
    rintro ms x u hx ⟨hfires, hresets, hleaves⟩ hu hdue
    cases hx.course hu with
    | idle _ _ _ _ _ hafter => exact ⟨_, hafter, hdue⟩
    | postponed hsignal | decided hsignal | ended hsignal =>
      rw [Moment.fires_of_ring hsignal] at hfires
      cases hfires
    | reset _ hyes =>
      rw [hresets] at hyes
      cases hyes
    | left hsignal =>
      rw [Moment.leaves, hsignal] at hleaves
      cases hleaves
  obtain ⟨t', ht', hdue⟩ := hinv
  obtain ⟨d, -, rfl⟩ := find?_of_timer? ht'
  exact hdue

/-- An alarm of a trickle timer that finds the latch clear and leaves it so is put off. -/
theorem Moment.Valid.postponed (h : x.Valid p) (hn : x.before.Orderly p)
    (hevent : x.event = .ring ⟨.advertise i, e⟩) (hafter : x.after.mayAdvertise = false) :
    ∃ t, x.after.timer? i = some t ∧ t.due = some (e + p.postponeDelay) := by
  have hsignal := signal?_of_ring hevent
  have hready := (h.turns.latched i e hsignal).symm.trans hafter
  have hjoined := hn.owned _ (AlarmTable.holds_of_deadline? (h.rang hevent).1)
  obtain ⟨d, hd⟩ := Table.contains_iff.1 hjoined
  cases h.course (timer?_of_find? hd) with
  | idle hfires =>
    rw [Moment.fires_of_ring hsignal] at hfires
    cases hfires
  | postponed hsignal' _ _ _ _ hsame =>
    obtain rfl := Signal.ring.inj (Option.some.inj (hsignal.symm.trans hsignal'))
    exact ⟨_, hsame, rfl⟩
  | decided _ _ hmay | ended _ _ hmay =>
    rw [hready] at hmay
    cases hmay
  | reset hother | left hother =>
    rw [hsignal] at hother
    cases hother

/-! ## What is queued -/

/-- What is queued where an alarm rings. -/
theorem Moment.Valid.queues (h : x.Valid p) (hn : x.before.Orderly p) :
    ∃ new, x.after.outbox.toList = x.before.outbox.toList ++ new ∧
      (∀ i l, Control.dio i l ∈ new → ∃ e, x.event = .ring ⟨.advertise i, e⟩ ∧
        (x.before.mayAdvertise = true ∨ x.before.addressReady = true)) ∧
      ∀ i a lifetime, Control.dao i a lifetime ∈ new → ∃ e, x.event = .ring ⟨.report i, e⟩ ∧
        (x.before.mayAdvertise = true ∨ x.before.addressReady = true) := by
  obtain ⟨new, hnew, hdio⟩ := h.turns.outbox
  refine ⟨new, hnew, fun i l hmem => ?_, fun i a lifetime hmem => ?_⟩
  · obtain ⟨t, e, -, hsignal, hready, -⟩ := hdio i l hmem
    exact ⟨e, Event.eq_ring_of_signal? hsignal, (latchReady_mayAdvertise _).1 hready⟩
  · obtain ⟨new', hnew', hmessages⟩ := h.confined.outbox
    obtain rfl : new' = new := List.append_cancel_left (hnew'.symm.trans hnew)
    obtain ⟨e, hevent⟩ := Event.eq_ring_of_dao (hmessages _ hmem)
    refine ⟨e, hevent, ?_⟩
    obtain ⟨-, d, -, ⟨-, hoff⟩ | ⟨hcompletes, -⟩⟩ := h.rings_report hn hevent
    · -- A report that is put off queues nothing.
      rw [hoff.outbox, List.self_eq_append_right] at hnew
      rw [hnew] at hmem
      cases hmem
    · simp only [Moment.completesReport, Bool.and_eq_true, Bool.or_eq_true] at hcompletes
      exact hcompletes.2

/-! ## Runs -/

/-- Whether a node may advertise is decided at the alarms of its trickle timers, once for all.  The
latch is never cleared, and once it is set the node postpones no more advertisements and no more
reports, whatever becomes of the link-local address.

Advertisements are queued at the alarms of trickle timers alone, when the address is usable or the
latch was set at an earlier one, and reports at the alarms of reports alone, when the latch is set
or the address is usable.

Until the latch is set, every instance waits for the first decision in its shortest interval; its
alarm is armed, and whenever it rings it is put off for one delay after its deadline.  Unless a
reset takes effect or the instance is left, the next alarm of the trickle timer has that
deadline. -/
theorem readiness_is_latched {source : ρ} {clock : Instant} {ready : Bool}
    (hrun : Run p (.new source clock ready) ms n) :
    (∀ (pre : List (Moment ρ)) (x : Moment ρ) (post : List (Moment ρ)), ms = pre ++ x :: post →
      x.before.mayAdvertise = true →
        (∀ y ∈ x :: post, x.before.StaysReady y.after) ∧ x.before.StaysReady n) ∧
    (∀ (pre : List (Moment ρ)) (x : Moment ρ) (post : List (Moment ρ)), ms = pre ++ x :: post →
      ∃ new, x.after.outbox.toList = x.before.outbox.toList ++ new ∧
        (∀ i l, Control.dio i l ∈ new → ∃ e, x.event = .ring ⟨.advertise i, e⟩ ∧
          (x.before.addressReady = true ∨ ∃ y ∈ pre, y.Latches)) ∧
        ∀ i a lifetime, Control.dao i a lifetime ∈ new → ∃ e, x.event = .ring ⟨.report i, e⟩ ∧
          (x.before.mayAdvertise = true ∨ x.before.addressReady = true)) ∧
    (∀ m, (m = n ∨ ∃ x ∈ ms, m = x.before) → m.mayAdvertise = false →
      ∀ i d, m.dodags.find? i = some d →
        d.Waits ∧ m.alarms.isArmed (.advertise i) = true) ∧
    ∀ (pre : List (Moment ρ)) (x : Moment ρ) (post : List (Moment ρ)) (i : InstanceId)
      (e : Instant), ms = pre ++ x :: post → x.event = .ring ⟨.advertise i, e⟩ →
      x.after.mayAdvertise = false →
        x.after.alarms.deadline? (.advertise i) = some (e + p.postponeDelay) ∧
        (∀ y, post.find? (fun z => z.fires i || z.resets i || z.leaves i) = some y →
          y.fires i = true → y.event = .ring ⟨.advertise i, e + p.postponeDelay⟩) ∧
        (post.find? (fun z => z.fires i || z.resets i || z.leaves i) = none →
          n.alarms.deadline? (.advertise i) = some (e + p.postponeDelay)) := by
  have hsound := soundTracks_new source clock ready
  have hnew := orderly_new p source clock ready
  refine ⟨?_, ?_, ?_, ?_⟩
  · rintro pre x post rfl hmay
    obtain ⟨-, hx, hpost⟩ := hrun.trail.cut
    have htrail : Trail p x.before (x :: post) n := .cons (.refl _) hx hpost
    refine ⟨fun y hy => ?_, htrail.staysReady hmay⟩
    obtain ⟨mid, rest, heq⟩ := List.append_of_mem hy
    rw [heq] at htrail
    obtain ⟨hmid, hvalid, -⟩ := htrail.cut
    have hupto := hmid.append (.cons (.refl _) hvalid (.nil (.refl _)))
    exact hupto.staysReady hmay
  · rintro pre x post rfl
    obtain ⟨hpre, hx, -⟩ := hrun.trail.cut
    obtain ⟨new, hqueued, hdio, hdao⟩ := hx.queues (hpre.orderly hsound hnew)
    refine ⟨new, hqueued, fun i l hmem => ?_, hdao⟩
    obtain ⟨e, hevent, hmay | hready⟩ := hdio i l hmem
    · exact ⟨e, hevent, .inr (hpre.exists_latches rfl hmay)⟩
    · exact ⟨e, hevent, .inl hready⟩
  · have hwaits {ms : List (Moment ρ)} {m : Node ρ} (h : Trail p (.new source clock ready) ms m)
        (hm : m.mayAdvertise = false) (i : InstanceId) (d : Dodag)
        (hd : m.dodags.find? i = some d) :
        d.Waits ∧ m.alarms.isArmed (.advertise i) = true :=
      ⟨h.waits (fun _ => rfl) hm hd, (h.orderly hsound hnew).armed i (Table.contains_of_find? hd)⟩
    rintro m (rfl | ⟨x, hx, rfl⟩)
    · exact hwaits hrun.trail
    · obtain ⟨pre, post, rfl⟩ := List.append_of_mem hx
      exact hwaits hrun.trail.cut.1
  · rintro pre x post i e rfl hevent hafter
    obtain ⟨hpre, hx, hpost⟩ := hrun.trail.cut
    obtain ⟨t, ht, hdue⟩ := hx.postponed (hpre.orderly hsound hnew) hevent hafter
    obtain ⟨d, -, rfl⟩ := find?_of_timer? ht
    refine ⟨hdue, fun y hy hfires => ?_, fun hnone => ?_⟩
    · obtain ⟨-, mid, rest, rfl, hmid⟩ := List.find?_eq_some_iff_append.1 hy
      obtain ⟨htrail, hvalid, -⟩ := hpost.cut
      obtain ⟨due, hsignal⟩ := Moment.exists_ring_of_fires hfires
      have hring := Event.eq_ring_of_signal? hsignal
      have hwaits := htrail.advertisement_waits ht (by simpa [and_assoc] using hmid)
      rw [hdue] at hwaits
      rw [hring, Option.some.inj (hwaits.symm.trans (hvalid.rang hring).1)]
    · rw [hpost.advertisement_waits ht (by simpa [and_assoc] using hnone), hdue]

/-- Requests to a node that joins an instance, prefers a parent there and asks for a report, and
lets its alarms ring for three seconds. -/
def joinedAndAsked : List (Operation × Instant) :=
  [(.join 1 {}, .zero), (.addParent 1 (.linkLocal 2), .zero),
    (.command (.setPreferred 1 (some (.linkLocal 2))), .zero), (.command (.scheduleDao 1), .zero),
    (.handleTimer, .ofTicks 3000)]

/-- The address is usable only when the trickle timer tries for the second time.  The report is sent
a second later, though the address is not usable any more. -/
theorem readiness_is_latched_once :
    ∃ (ms ms' post : List (Moment Generator)) (x : Moment Generator) (n n' k : Node Generator),
      record .millis joinedAndAsked (.new (.fixed 0) .zero false) = .ok (ms, n) ∧
      n.counts.dioPostponed = 1 ∧ n.counts.daoPostponed = 2 ∧
      record .millis [(.handleTimer, .ofTicks 3048)] { n with addressReady := true } =
        .ok (ms', n') ∧
      record .millis [(.handleTimer, .ofTicks 4000)] { n' with addressReady := false } =
        .ok (x :: post, k) ∧
      x.event = .ring ⟨.report 1, .ofTicks 4000⟩ ∧ k.outbox.toList.length = 2 ∧
      k.counts.dioPostponed = 1 ∧ k.counts.daoPostponed = 2 := by
  obtain ⟨ms, ms', post, x, n, n', k, hrecord, hdio, hdao, hrecord', hrecord'', hevent, hmay,
      hdio', hdao', hbox⟩ :
      ∃ (ms ms' post : List (Moment Generator)) (x : Moment Generator) (n n' k : Node Generator),
        record .millis joinedAndAsked (.new (.fixed 0) .zero false) = .ok (ms, n) ∧
        n.counts.dioPostponed = 1 ∧ n.counts.daoPostponed = 2 ∧
        record .millis [(.handleTimer, .ofTicks 3048)] { n with addressReady := true } =
          .ok (ms', n') ∧
        record .millis [(.handleTimer, .ofTicks 4000)] { n' with addressReady := false } =
          .ok (x :: post, k) ∧
        x.event = .ring ⟨.report 1, .ofTicks 4000⟩ ∧ x.before.mayAdvertise = true ∧
        x.before.counts.dioPostponed = 1 ∧ x.before.counts.daoPostponed = 2 ∧
        k.outbox.toList.length = 2 :=
    ⟨_, _, _, _, _, _, _, rfl, rfl, rfl, rfl, rfl, rfl, rfl, rfl, rfl, rfl⟩
  have hrun : Run .millis (.new (Generator.fixed 0) .zero false) (ms ++ ms') n' :=
    ((Run.start.record hrecord).outside (sameCore_addressReady n true)).record hrecord'
  have hrun' : Run .millis (.new (Generator.fixed 0) .zero false) (ms ++ ms' ++ x :: post) k :=
    (hrun.outside (sameCore_addressReady n' false)).record hrecord''
  have hstays := ((readiness_is_latched hrun').1 _ x post rfl hmay).2
  exact ⟨ms, ms', post, x, n, n', k, hrecord, hdio, hdao, hrecord', hrecord'', hevent, hbox,
    hstays.dioPostponed.trans hdio', hstays.daoPostponed.trans hdao'⟩

end Node

end TrickleNet
