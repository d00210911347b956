import Mathlib
import TrickleNet.Proofs.Collecting
import TrickleNet.Proofs.Neighbors
/-!
# Frames keep to the bounds of their links

A message costs a frame for each of its receivers whose link is up.  `Simulation.Routed` says what
becomes of them: each frame is lost, or it is on the agenda, once, for an instant within the bounds
of its link (`Link.Bounds`).

To put a frame on the agenda the jitter of its link is widened by one tick, so that the draw can
reach it.  The longest jitter there is leaves no room for that, although the draw is clamped to the
jitter afterwards.  `Simulation.Overruns` describes the frames that come to this, a message is
`Simulation.Blocked` by the first of them, and `frames_keep_to_their_links` says that all other
messages are routed and keep to the bounds.
-/

namespace TrickleNet

/-- A fold stops at the first step that does. -/
theorem Checked.foldlM_eq_error_iff {α β : Type} {f : β → α → Checked β} {l : List α} {b : β}
    {e : Fault} :
    l.foldlM f b = .error e ↔
      ∃ (xs : List α) (x : α) (ys : List α) (m : β),
        l = xs ++ x :: ys ∧ xs.foldlM f b = .ok m ∧ f m x = .error e := by
  induction l generalizing b with
  | nil => simp [pure, Except.pure]
  | cons a l ih =>
    rw [List.foldlM_cons, Checked.bind_eq_error_iff]
    constructor
    · rintro (h | ⟨c, hc, h⟩)
      · exact ⟨[], a, l, b, rfl, rfl, h⟩
      · obtain ⟨xs, x, ys, m, rfl, hxs, hx⟩ := ih.1 h
        refine ⟨a :: xs, x, ys, m, rfl, ?_, hx⟩
        rw [List.foldlM_cons, hc]
        exact hxs
    · rintro ⟨xs, x, ys, m, hl, hxs, hx⟩
      cases xs with
      | nil =>
        obtain ⟨rfl, rfl⟩ := List.cons.inj hl
        obtain rfl := Except.ok.inj hxs
        exact .inl hx
      | cons x' xs =>
        obtain ⟨rfl, rfl⟩ := List.cons.inj hl
        rw [List.foldlM_cons] at hxs
        obtain ⟨c, hc, hxs⟩ := Checked.bind_eq_ok_iff.1 hxs
        exact .inr ⟨c, hc, ih.2 ⟨xs, x, ys, m, rfl, hxs, hx⟩⟩

/-! ## The bounds of a link -/

namespace Link

variable {l : Link} {state state' : UInt64} {extra : Span} {now t : Instant} {f : Fault}

/-- A frame that is sent over the link now may arrive then. -/
structure Bounds (l : Link) (now t : Instant) : Prop where
  delay_le : now + l.delay ≤ t
  le_jitter : t ≤ now + l.delay + l.jitter
  eq_delay : l.jitter = .zero → t = now + l.delay

/-- Whatever is drawn, the extra delay is at most the jitter. -/
theorem extraDelay_le (h : l.extraDelay state = .ok (extra, state')) : extra ≤ l.jitter := by
  unfold extraDelay at h
  split at h
  · cases h
    exact Nat.zero_le _
  · obtain ⟨width, -, h⟩ := Checked.bind_eq_ok_iff.1 h
    cases h
    rw [Span.le_iff, Span.ticks_ofTicks]
    omega

/-- The longest jitter there is has no room for one tick more. -/
theorem extraDelay_eq_error_iff :
    l.extraDelay state = .error f ↔ f = .addOverflow ∧ l.jitter.ticks = maxTicks := by
  have hle := l.jitter.ticks_le
  have hlimit : wordLimit64 = maxTicks + 1 := rfl
  unfold extraDelay
  split
  · rename_i hzero
    rw [hzero]
    simp
  · rw [Checked.bind_eq_error_iff, addChecked_eq_error_iff]
    constructor
    · rintro (⟨rfl, hfull⟩ | ⟨width, -, h⟩)
      · exact ⟨rfl, by omega⟩
      · cases h
    · rintro ⟨rfl, hmax⟩
      exact .inl ⟨rfl, by omega⟩

/-- A frame that is no later than the delay and the jitter of the link keeps to its bounds. -/
theorem bounds_add (h : extra ≤ l.jitter) : l.Bounds now (now + l.delay + extra) := by
  rw [Span.le_iff] at h
  have hle := (now + l.delay).ticks_le
  have hextra : (now + l.delay + extra).ticks =
      min ((now + l.delay).ticks + extra.ticks) maxTicks := rfl
  refine ⟨Instant.le_iff.2 (by omega), Instant.le_iff.2 ?_, fun hzero => Instant.ext ?_⟩
  · rw [Instant.ticks_add (a := l.jitter)]
    omega
  · rw [hzero, Span.ticks_zero] at h
    omega

/-- A link without loss loses no frame. -/
theorem loss_pos (h : (l.losesFrame state).1 = true) : 0.0 < l.loss := by
  unfold losesFrame at h
  split at h
  · assumption
  · cases h

end Link

namespace Simulation

variable {s s' s'' : Simulation} {sender b : Address} {c : Control}
  {bs bs' lost lost' : List Address} {flights flights' : List (Address × Instant)} {l : Link}
  {f : Fault}

/-! ## Where routing stops -/

/-- The frame is not lost, and its link has the longest jitter there is, or the agenda has no number
left for one more entry. -/
def Overruns (s : Simulation) (sender b : Address) : Prop :=
  ∃ l, s.radio.link? sender b = some l ∧ l.active = true ∧ (l.losesFrame s.radioState).1 = false ∧
    (l.jitter.ticks = maxTicks ∨ wordLimit64 ≤ s.agenda.nextNumber + 1)

/-- Routing comes to a frame that overruns, once the receivers before it were sent theirs. -/
def Blocked (s : Simulation) (sender : Address) (c : Control) : Prop :=
  ∃ (bs : List Address) (b : Address) (bs' : List Address) (m : Simulation),
    s.receivers sender c = bs ++ b :: bs' ∧
    bs.foldlM (fun m b => m.sendFrame sender c b) { s with logbook := s.logbook.noteSent c } =
      .ok m ∧
    m.Overruns sender b

/-- The deliveries of a message in the order in which they are put on the agenda, the first of them
with this number. -/
def deliveries (sender : Address) (c : Control) (number : Nat)
    (flights : List (Address × Instant)) : List (Agenda.Slot × Happening) :=
  (flights.zipIdx number).map fun e => (⟨e.1.2, e.2⟩, .deliver sender e.1.1 c)

theorem deliveries_append {number : Nat} :
    deliveries sender c number (flights ++ flights') =
      deliveries sender c number flights ++
        deliveries sender c (number + flights.length) flights' := by
  rw [deliveries, List.zipIdx_append, List.map_append]
  rfl

/-- A message was routed to some receivers: the frames to the nodes `lost` were lost, and the others
are on their way, each with the instant of its delivery. -/
structure Routed (sender : Address) (c : Control) (receivers lost : List Address)
    (flights : List (Address × Instant)) (s s' : Simulation) : Prop where
  radio : s'.radio = s.radio
  now : s'.now = s.now
  /-- Each receiver whose link is up has one frame. -/
  frames : (lost ++ flights.map Prod.fst).Perm (receivers.filter (s.radio.connected sender))
  counted : s'.logbook.lost = s.logbook.lost + lost.length
  /-- Links without loss lose none. -/
  lossy : ∀ b ∈ lost, ∃ l, s.radio.link? sender b = some l ∧ 0.0 < l.loss
  agenda : s'.agenda.entries.Perm
    (s.agenda.entries ++ deliveries sender c s.agenda.nextNumber flights)
  number : s'.agenda.nextNumber = s.agenda.nextNumber + flights.length
  bounds : ∀ e ∈ flights, ∃ l, s.radio.link? sender e.1 = some l ∧ l.Bounds s.now e.2

namespace Routed

theorem refl (s : Simulation) : Routed sender c [] [] [] s s where
  radio := rfl
  now := rfl
  frames := .refl _
  counted := rfl
  lossy b hb := absurd hb List.not_mem_nil
  agenda := by simp [deliveries]
  number := rfl
  bounds e he := absurd he List.not_mem_nil

theorem trans (h : Routed sender c bs lost flights s s')
    (h' : Routed sender c bs' lost' flights' s' s'') :
    Routed sender c (bs ++ bs') (lost ++ lost') (flights ++ flights') s s'' where
  radio := h'.radio.trans h.radio
  now := h'.now.trans h.now
  frames := by
    have hframes := h.frames.append h'.frames
    rw [h.radio, ← List.filter_append] at hframes
    refine List.Perm.trans ?_ hframes
    rw [List.map_append, List.append_assoc, List.append_assoc]
    exact (List.perm_append_comm_assoc _ _ _).append_left lost
  counted := by rw [h'.counted, h.counted, List.length_append, Nat.add_assoc]
  lossy b hb := by
    rcases List.mem_append.1 hb with hb | hb
    · exact h.lossy b hb
    · rw [← h.radio]
      exact h'.lossy b hb
  agenda := by
    rw [deliveries_append, ← h.number, ← List.append_assoc]
    exact h'.agenda.trans (h.agenda.append_right _)
  number := by rw [h'.number, h.number, List.length_append, Nat.add_assoc]
  bounds e he := by
    rcases List.mem_append.1 he with he | he
    · exact h.bounds e he
    · rw [← h.radio, ← h.now]
      exact h'.bounds e he

/-- No more frames are on their way than there are receivers. -/
theorem length_flights_le (h : Routed sender c bs lost flights s s') :
    flights.length ≤ bs.length := by
  have hlength := h.frames.length_eq
  rw [List.length_append, List.length_map] at hlength
  have hfilter := List.length_filter_le (s.radio.connected sender) bs
  omega

end Routed

/-! ## One frame -/

/-- A frame is sent within the bounds of its link, or lost, or there is no link that is up. -/
theorem routed_sendFrame (h : s.sendFrame sender c b = .ok s') :
    ∃ lost flights, Routed sender c [b] lost flights s s' := by
  rcases sendFrame_eq_ok h with ⟨hdown, rfl⟩ | ⟨l, hl, hup, hframe⟩
  · exact ⟨[], [], rfl, rfl, by simp [hdown], rfl, by simp, by simp [deliveries], rfl, by simp⟩
  have hconnected : s.radio.connected sender b = true := RadioMap.connected_iff.2 ⟨l, hl, hup⟩
  rcases hframe with
    ⟨radioState, hlost, rfl⟩ | ⟨extra, state, radioState, agenda, hextra, hagenda, rfl⟩
  · refine ⟨[b], [], rfl, rfl, by simp [hconnected], rfl, ?_, by simp [deliveries], rfl, by simp⟩
    intro b' hb'
    obtain rfl := List.mem_singleton.1 hb'
    exact ⟨l, hl, Link.loss_pos (by rw [hlost])⟩
  · obtain ⟨hentries, hnumber, -⟩ := Agenda.schedule_eq_ok hagenda
    refine ⟨[], [(b, s.now + l.delay + extra)], rfl, rfl, by simp [hconnected], rfl, by simp, ?_,
      hnumber, ?_⟩
    · show agenda.entries.Perm _
      rw [hentries]
      exact Agenda.perm_place.trans (List.perm_append_singleton _ _).symm
    · intro e he
      obtain rfl := List.mem_singleton.1 he
      exact ⟨l, hl, Link.bounds_add (Link.extraDelay_le hextra)⟩

/-- The way of a frame that is not lost. -/
theorem sendFrame_of_kept (hl : s.radio.link? sender b = some l) (hup : l.active = true)
    (hkept : (l.losesFrame s.radioState).1 = false) :
    s.sendFrame sender c b = (do
      let (extra, radioState) ← l.extraDelay (l.losesFrame s.radioState).2
      { s with radioState }.schedule (s.now + l.delay + extra) (.deliver sender b c)) := by
  unfold sendFrame
  rw [hl]
  simp only [hup, if_true]
  generalize l.losesFrame s.radioState = draw at hkept ⊢
  obtain ⟨lost, state⟩ := draw
  obtain rfl : lost = false := hkept
  rfl

/-- Routing stops at a frame that overruns, and at no other. -/
theorem sendFrame_eq_error_iff :
    s.sendFrame sender c b = .error f ↔ f = .addOverflow ∧ s.Overruns sender b := by
  have hnumber (state : UInt64) (time : Instant) (h : Happening) :
      { s with radioState := state }.schedule time h = .error f ↔
        f = .addOverflow ∧ wordLimit64 ≤ s.agenda.nextNumber + 1 := by
    rw [schedule, Checked.bind_eq_error_iff, Agenda.schedule_eq_error_iff]
    simp [pure, Except.pure]
  constructor
  · intro h
    have hsent : ∃ l, s.radio.link? sender b = some l ∧ l.active = true ∧
        (l.losesFrame s.radioState).1 = false := by
      unfold sendFrame at h
      split at h
      · cases h
      rename_i l hl
      split at h
      swap
      · cases h
      rename_i hup
      split at h
      · cases h
      · rename_i hkept
        exact ⟨l, hl, hup, by rw [hkept]⟩
    obtain ⟨l, hl, hup, hkept⟩ := hsent
    rw [sendFrame_of_kept hl hup hkept, Checked.bind_eq_error_iff,
      Link.extraDelay_eq_error_iff] at h
    rcases h with ⟨rfl, hmax⟩ | ⟨e, -, h⟩
    · exact ⟨rfl, l, hl, hup, hkept, .inl hmax⟩
    · obtain ⟨rfl, hfull⟩ := (hnumber _ _ _).1 h
      exact ⟨rfl, l, hl, hup, hkept, .inr hfull⟩
  · rintro ⟨rfl, l, hl, hup, hkept, hfull⟩
    rw [sendFrame_of_kept hl hup hkept, Checked.bind_eq_error_iff, Link.extraDelay_eq_error_iff]
    by_cases hmax : l.jitter.ticks = maxTicks
    · exact .inl ⟨rfl, hmax⟩
    cases hextra : l.extraDelay (l.losesFrame s.radioState).2 with
    | error f => exact absurd (Link.extraDelay_eq_error_iff.1 hextra).2 hmax
    | ok e => exact .inr ⟨e, rfl, (hnumber _ _ _).2 ⟨rfl, hfull.resolve_left hmax⟩⟩

/-! ## All frames of a message -/

theorem routed_foldlM (h : bs.foldlM (fun m b => m.sendFrame sender c b) s = .ok s') :
    ∃ lost flights, Routed sender c bs lost flights s s' := by
  induction bs generalizing s with
  | nil =>
    cases h
    exact ⟨[], [], .refl _⟩
  | cons b bs ih =>
    rw [List.foldlM_cons] at h
    obtain ⟨m, hm, h⟩ := Checked.bind_eq_ok_iff.1 h
    obtain ⟨lost, flights, hfirst⟩ := routed_sendFrame hm
    obtain ⟨lost', flights', hrest⟩ := ih h
    exact ⟨lost ++ lost', flights ++ flights', hfirst.trans hrest⟩

theorem transmit_eq_error_iff :
    s.transmit sender c = .error f ↔ f = .addOverflow ∧ s.Blocked sender c := by
  refine Checked.foldlM_eq_error_iff.trans ?_
  simp only [sendFrame_eq_error_iff]
  constructor
  · rintro ⟨bs, b, bs', m, hreceivers, hm, rfl, hover⟩
    exact ⟨rfl, bs, b, bs', m, hreceivers, hm, hover⟩
  · rintro ⟨rfl, bs, b, bs', m, hreceivers, hm, hover⟩
    exact ⟨bs, b, bs', m, hreceivers, hm, rfl, hover⟩

/-- Links with a shorter jitter than the longest one block nothing as long as the agenda has numbers
left. -/
theorem not_blocked (hjitter : ∀ b l, s.radio.link? sender b = some l → l.jitter.ticks < maxTicks)
    (hroom : s.agenda.nextNumber + (s.receivers sender c).length < wordLimit64) :
    ¬s.Blocked sender c := by
  rintro ⟨bs, b, bs', m, hreceivers, hm, l, hl, -, -, hfull⟩
  obtain ⟨lost, flights, hrouted⟩ := routed_foldlM hm
  rw [hrouted.radio] at hl
  have hshort := hjitter b l hl
  have hnumber : m.agenda.nextNumber = s.agenda.nextNumber + flights.length := hrouted.number
  have hflights := hrouted.length_flights_le
  rw [hreceivers, List.length_append, List.length_cons] at hroom
  omega

/-- A message is routed to its receivers one after the other.  This stops, with an overflow, exactly
if it comes to a frame that is not lost and whose link has the longest jitter there is, or if the
agenda has no number left.  Otherwise each receiver whose link is up is sent one frame, which is
lost, if the link has a loss rate, or is on the agenda for an instant within the bounds of the link:
after the delay, by at most the jitter, and exactly after the delay if there is no jitter.  So with
any shorter jitter routing goes through, whatever is drawn. -/
theorem frames_keep_to_their_links (s : Simulation) (sender : Address) (c : Control) :
    (∀ f, s.transmit sender c = .error f ↔ f = .addOverflow ∧ s.Blocked sender c) ∧
    (∀ s', s.transmit sender c = .ok s' →
      ∃ lost flights, Routed sender c (s.receivers sender c) lost flights s s') ∧
    ((∀ b l, s.radio.link? sender b = some l → l.jitter.ticks < maxTicks) →
      s.agenda.nextNumber + (s.receivers sender c).length < wordLimit64 →
      ∃ s', s.transmit sender c = .ok s') := by
  refine ⟨fun f => transmit_eq_error_iff, fun s' h => ?_, fun hjitter hroom => ?_⟩
  · obtain ⟨lost, flights, hrouted⟩ := routed_foldlM h
    -- To count the message changes nothing that matters to its frames.
    exact ⟨lost, flights, hrouted.radio, hrouted.now, hrouted.frames, hrouted.counted,
      hrouted.lossy, hrouted.agenda, hrouted.number, hrouted.bounds⟩
  · cases hresult : s.transmit sender c with
    | ok s' => exact ⟨s', rfl⟩
    | error f => exact absurd (transmit_eq_error_iff.1 hresult).2 (not_blocked hjitter hroom)

/-- Two nodes with a link of this jitter between them. -/
def linked (jitter : Nat) : Simulation :=
  { Simulation.new 42 with
    radio := RadioMap.addLink ∅ (.linkLocal 0) (.linkLocal 1) { jitter := .ofTicks jitter } }

theorem receivers_linked (jitter : Nat) :
    (linked jitter).receivers (.linkLocal 0) (.dis none) = [.linkLocal 1] := rfl

/-- A solicitation gets through with any jitter but the longest. -/
theorem frames_keep_to_their_links_but_the_longest :
    (∀ jitter < maxTicks, ∃ s' lost flights,
      (linked jitter).transmit (.linkLocal 0) (.dis none) = .ok s' ∧
        Routed (.linkLocal 0) (.dis none) [.linkLocal 1] lost flights (linked jitter) s') ∧
    (linked maxTicks).transmit (.linkLocal 0) (.dis none) = .error .addOverflow := by
  constructor
  · intro jitter hjitter
    obtain ⟨-, hrouted, hreturns⟩ :=
      frames_keep_to_their_links (linked jitter) (.linkLocal 0) (.dis none)
    have hshort (b : Address) (l : Link)
        (hl : (linked jitter).radio.link? (.linkLocal 0) b = some l) :
        l.jitter.ticks < maxTicks := by
      rw [linked, RadioMap.link?_addLink] at hl
      split at hl
      · obtain rfl := Option.some.inj hl
        exact Nat.lt_of_le_of_lt (Nat.min_le_left _ _) hjitter
      · cases hl
    obtain ⟨s', hs'⟩ := hreturns hshort (by
      rw [receivers_linked]
      exact Nat.lt_of_lt_of_le Nat.one_lt_two (by decide))
    obtain ⟨lost, flights, h⟩ := hrouted s' hs'
    exact ⟨s', lost, flights, hs', h⟩
  · have hlink : (linked maxTicks).radio.link? (.linkLocal 0) (.linkLocal 1) =
        some { jitter := .ofTicks maxTicks } := RadioMap.link?_addLink.trans (if_pos rfl)
    have hkept : (Link.losesFrame { jitter := .ofTicks maxTicks } 42).1 = false := by decide +kernel
    obtain ⟨hstops, -, -⟩ := frames_keep_to_their_links (linked maxTicks) (.linkLocal 0) (.dis none)
    rw [hstops]
    refine ⟨rfl, [], .linkLocal 1, [], _, receivers_linked maxTicks, rfl, ?_⟩
    exact ⟨_, hlink, rfl, hkept, .inl (Nat.min_self maxTicks)⟩

end Simulation

end TrickleNet
