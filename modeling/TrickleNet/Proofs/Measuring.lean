import Mathlib
import TrickleNet.Proofs.Foresight
/-!
# Measuring the link

A parent whose interval does not grow announces windows of one length, so its child relies on every
frame.  The same holds if the interval doubles once, as even the first frame announces the second
interval.  If no frame is slower than the one before by more than the skew, the child never misses a
window, and its samples are exactly the differences between the delays of a frame and a slower one
right after it (`fixed_parent_is_measured`).
-/

namespace TrickleNet.Pair

open Node Checked

variable {ρ : Type} {c : Setting} {n m : Node ρ} {k : Nat} {f g : Frame} {now : Instant}
  {sent inFlight rs ts : List Frame} {s s' : Pair ρ}

/-- The samples that the delays of the first `count` frames amount to. -/
def slowdowns (c : Setting) (count : Nat) : List LatencySample :=
  (List.range (count - 1)).filterMap fun k =>
    if c.delay k < c.delay (k + 1) then
      some ⟨c.inst, c.address, c.delay (k + 1) - c.delay k⟩
    else none

/-- The child relies on the last frame that it has received, and has measured all of them. -/
structure Measured (c : Setting) (rs : List Frame) (n : Node ρ) : Prop where
  relies : (n.track c.inst c.address).Relies c.platform.receptionSkew rs.getLast?
  samples : n.samples = slowdowns c rs.length
  missed : n.counts.windowsMissed = 0

theorem slowdowns_succ (c : Setting) (j : Nat) :
    slowdowns c (j + 2) = slowdowns c (j + 1) ++
      (if c.delay j < c.delay (j + 1) then [c.delay (j + 1) - c.delay j] else []).map
        (⟨c.inst, c.address, ·⟩) := by
  simp only [slowdowns, Nat.add_sub_cancel, show j + 2 - 1 = j + 1 from rfl, List.range_succ,
    List.filterMap_append]
  by_cases hlt : c.delay j < c.delay (j + 1) <;> simp [hlt]

/-- A frame is late by as much as it is slower than the one before. -/
theorem lateness_eq {j : Nat} (hfollows : f.Follows g.toAdvert)
    (hf : f.arrival = f.sentAt + c.delay j) (hg : g.arrival = g.sentAt + c.delay (j + 1))
    (hlt : g.arrival.ticks < maxTicks) :
    Frame.lateness (some f) g =
      if c.delay j < c.delay (j + 1) then [c.delay (j + 1) - c.delay j] else [] := by
  have hsent := hfollows.sentAt
  rw [hg, Instant.ticks_add] at hlt
  have hiff : f.expected < g.arrival ↔ c.delay j < c.delay (j + 1) := by
    simp only [Frame.expected, hf, hg, Instant.lt_iff, Span.lt_iff, Instant.ticks_add]
    omega
  rw [Frame.lateness]
  simp only [hiff]
  split
  · rename_i hslower
    rw [Span.lt_iff] at hslower
    congr 1
    rw [Span.ext_iff]
    simp only [Frame.expected, hf, hg, Instant.ticks_sub, Instant.ticks_add, Span.ticks_sub]
    omega
  · rfl

/-- A frame that reaches the child is measured. -/
theorem Measured.deliver (h : Measured c rs n) (hfixed : c.params.doublings.toNat ≤ 1)
    (ht : Traffic c now sent inFlight (rs ++ g :: ts))
    (horder : sent.Pairwise fun f g => f.arrival ≤ g.arrival) (hlt : g.arrival.ticks < maxTicks)
    (hm : deliver c g.arrival n g = .ok m) : Measured c (rs ++ [g]) m := by
  obtain ⟨hrelies, hsamples, hmissed, -⟩ := deliver_relies h.relies hm
  rw [h.samples] at hsamples
  rw [h.missed] at hmissed
  rcases List.eq_nil_or_concat' rs with rfl | ⟨hs, f, rfl⟩
  · exact ⟨hrelies, hsamples, hmissed⟩
  rw [List.append_assoc] at ht
  obtain ⟨hfollows, hfarrival, hgarrival, hfsensible, hgsensible⟩ := ht.consecutive horder
  have hlast : (hs ++ [f]).getLast? = some f := by simp
  have hrelied : g.relied c.platform.receptionSkew (some f) = g :=
    if_pos (.inr (window_eq hfixed hfsensible hgsensible _))
  rw [hlast] at hrelies hsamples
  rw [hrelied] at hrelies
  rw [lateness_eq hfollows hfarrival hgarrival hlt, List.length_append, List.length_singleton,
    ← slowdowns_succ] at hsamples
  refine ⟨?_, ?_, hmissed⟩
  · rw [List.getLast?_concat]
    exact hrelies
  · rw [hsamples, List.length_append, List.length_append]
    rfl

variable [RandomSource ρ]

/-- While the alarms of the child ring, it learns nothing and misses nothing. -/
theorem Measured.rings {child : Node ρ} {ms : List (Moment ρ)} (h : Measured c s.received s.child)
    (hs : Linked c k s) (horder : s.InOrder) (hk : k < maxTicks)
    (hskew : ∀ j, (c.delay (j + 1)).ticks ≤ (c.delay j).ticks + c.platform.receptionSkew.ticks)
    (hrings : Rings c.platform s.now s.child ms child) : Measured c s.received child := by
  have hsame := hs.sameRecords h.relies (fun f hf => hs.now_lt_closes horder hk hskew hf) hrings
  refine ⟨?_, hsame.samples.trans h.samples, hsame.missed.trans h.missed⟩
  rw [hsame.tracks]
  exact h.relies

/-- A child measures its parent tick by tick. -/
theorem Measured.tick (h : Measured c s.received s.child) (hs : Linked c k s)
    (hs' : Linked c (k + 1) s') (horder : s'.InOrder) (hk : k < maxTicks)
    (hfixed : c.params.doublings.toNat ≤ 1)
    (hskew : ∀ j, (c.delay (j + 1)).ticks ≤ (c.delay j).ticks + c.platform.receptionSkew.ticks)
    (ht : tick c s = .ok s') : Measured c s'.received s'.child := by
  apply tick_received ht hs hs'
  · intro child ms hrings
    have hchild := h.rings hs (horder.of_tick ht) hk hskew hrings
    exact ⟨hchild.relies, hchild.samples, hchild.missed⟩
  · intro rs f ts n m htraffic harrival hn hm
    exact hn.deliver hfixed htraffic horder (by rw [harrival]; exact hk) hm

/-- A child tracks and measures a parent whose interval is fixed: no window is missed, and there is
one sample for each frame received that is slower than the one before, by how much it is slower. -/
theorem fixed_parent_is_measured (hc : c.Sound) (hfixed : c.params.doublings.toNat ≤ 1)
    (hskew : ∀ j, (c.delay (j + 1)).ticks ≤ (c.delay j).ticks + c.platform.receptionSkew.ticks)
    (source source' : ρ) (ready : Bool) (hk : k ≤ maxTicks) :
    (run c source source' ready k).FinishesBelow (9 * k + 2) ∧
      ∀ s, run c source source' ready k = .ok s → s.InOrder →
        s.sent = s.received ++ s.inFlight ∧ s.child.counts.windowsMissed = 0 ∧
          s.child.samples = slowdowns c s.received.length := by
  obtain ⟨hfinish, hlinked⟩ := run_linked hc source source' ready hk
  refine ⟨hfinish, ?_⟩
  intro s hs horder
  have hmeasured : Measured c s.received s.child := by
    refine run_invariant hc (J := fun _ s => Measured c s.received s.child)
      (fun s hfresh hnil => ?_)
      (fun k s s' hk hs hs' horder ht hm => hm.tick hs hs' horder hk hfixed hskew ht) hk hs horder
    rw [hnil]
    exact ⟨hfresh.track, hfresh.samples, hfresh.missed⟩
  exact ⟨(hlinked s hs).traffic.order horder, hmeasured.missed, hmeasured.samples⟩

/-- A parent that advertises every four milliseconds, over a link on which every other frame takes a
millisecond. -/
def alternating : Setting where
  platform := .millis
  inst := 1
  params := { minExponent := 2, doublings := 0 }
  address := .linkLocal 1
  delay k := .ofTicks (k % 2)

/-- Three frames are received, and the second one is a millisecond slower than the first. -/
theorem alternating_is_measured :
    ∃ s : Pair Generator, run alternating (.fixed 0) (.fixed 1) true 12 = .ok s ∧
      s.received.length = 3 ∧ s.child.counts.windowsMissed = 0 ∧
      s.child.samples = [⟨1, .linkLocal 1, .ofTicks 1⟩] := by
  have hskew (j : Nat) : (alternating.delay (j + 1)).ticks ≤
      (alternating.delay j).ticks + alternating.platform.receptionSkew.ticks := by
    show min ((j + 1) % 2) maxTicks ≤ min (j % 2) maxTicks + 400
    omega
  have hmeasured := fixed_parent_is_measured (c := alternating) (k := 12)
    ⟨by decide, by decide, by decide, by decide, by decide⟩ (by decide) hskew (Generator.fixed 0)
    (.fixed 1) true (by decide)
  have hrun : (run alternating (Generator.fixed 0) (.fixed 1) true 12).toOption.map
      (fun s => (decide s.InOrder, s.received.length)) = some (true, 3) := by decide +kernel
  obtain ⟨s, hs, hrun⟩ := Checked.eq_ok_of_map_toOption hrun
  simp only [Prod.mk.injEq, decide_eq_true_eq] at hrun
  obtain ⟨horder, hlength⟩ := hrun
  obtain ⟨-, hmissed, hsamples⟩ := hmeasured.2 s hs horder
  rw [hlength] at hsamples
  exact ⟨s, hs, hlength, hmissed, hsamples.trans (by decide +kernel)⟩

end TrickleNet.Pair
