import Mathlib
import TrickleNet.Proofs.Foresight
/-!
# Frames that are overlooked

A child does not rely on a frame that comes in time and announces a window of another length, as a
parent does while its interval doubles.  It goes on relying on the frame before, and the window that
one announced closes when the overlooked frame's delay and the skew have passed.  If the listen
phase that the overlooked frame announces is shorter than the skew, the next frame comes before
that; otherwise a parent that has kept every promise is declared silent.

With one delay for all frames this is the only way in which a window is missed
(`silent_iff_overlooked`), and it does not happen to a parent whose interval doubles at most once.
-/

namespace TrickleNet

namespace Frame

variable {skew : Span} {f g h : Frame} {hs os rs ts : List Frame}

/-- The frames that a child overlooks, if each frame comes when the one before makes it expected. -/
def overlooked (skew : Span) : List Frame → List Frame
  | f :: g :: rest =>
    if g.window skew = f.window skew then overlooked skew (g :: rest)
    else g :: overlooked skew rest
  | [_] | [] => []

/-- More frames do not change which of the first ones are overlooked. -/
theorem overlooked_prefix (rs ts : List Frame) :
    overlooked skew rs <+: overlooked skew (rs ++ ts) := by
  fun_induction overlooked skew rs with
  | case1 f g rest heq ih =>
    rw [List.cons_append, List.cons_append, overlooked, if_pos heq]
    exact ih
  | case2 f g rest hne ih =>
    rw [List.cons_append, List.cons_append, overlooked, if_neg hne]
    exact (List.prefix_cons_inj g).2 ih
  | case3 | case4 => exact List.nil_prefix

/-- Of frames that announce windows of one length none is overlooked. -/
theorem overlooked_eq_nil (h : ∀ f ∈ rs, ∀ g ∈ rs, g.window skew = f.window skew) :
    overlooked skew rs = [] := by
  fun_induction overlooked skew rs with
  | case1 f g rest heq ih =>
    exact ih fun f hf g hg => h f (List.mem_cons_of_mem _ hf) g (List.mem_cons_of_mem _ hg)
  | case2 f g rest hne ih =>
    exact absurd (h f List.mem_cons_self g (List.mem_cons_of_mem _ List.mem_cons_self)) hne
  | case3 | case4 => rfl

/-- A child that has received `hs` and relies on the frame `f` after it has overlooked `os`. -/
def Heeded (skew : Span) (hs : List Frame) (f : Frame) (os : List Frame) : Prop :=
  ∀ rest, overlooked skew (hs ++ f :: rest) = os ++ overlooked skew (f :: rest)

theorem heeded_nil : Heeded skew [] f [] := fun _ => rfl

theorem Heeded.next (hf : Heeded skew hs f os) (heq : g.window skew = f.window skew) :
    Heeded skew (hs ++ [f]) g os := by
  intro rest
  rw [List.append_assoc, List.singleton_append, hf, overlooked, if_pos heq]

theorem Heeded.skip (hf : Heeded skew hs f os) (hne : g.window skew ≠ f.window skew) :
    Heeded skew (hs ++ [f, g]) h (os ++ [g]) := by
  intro rest
  rw [List.append_assoc, List.cons_append, List.singleton_append, hf, overlooked, if_neg hne,
    List.append_assoc, List.singleton_append]

theorem Heeded.overlooked_eq (hf : Heeded skew hs f os) : overlooked skew (hs ++ [f]) = os := by
  rw [hf, overlooked, List.append_nil]

/-- If all frames take the same time, the next one comes when it is expected, and the window that
was announced for it closes the skew after its delay. -/
theorem closes_eq {d : Span} (hfollows : f.Follows g.toAdvert) (hf : f.arrival = f.sentAt + d)
    (hg : g.arrival = g.sentAt + d) (hlt : g.arrival.ticks < maxTicks) :
    f.expected = g.arrival ∧ (f.closes skew).ticks =
      min (g.arrival.ticks + g.lookahead.delay.ticks + skew.ticks) maxTicks := by
  have hsent := hfollows.sentAt
  have hdelay := hfollows.delay
  rw [hg, Instant.ticks_add] at hlt
  constructor
  · rw [Instant.ext_iff]
    simp only [expected, hf, hg, Instant.ticks_add]
    omega
  · simp only [closes, hf, hg, hdelay, Instant.ticks_add, Span.ticks_add]
    omega

/-- What a child relies on that has received these frames, and what it has overlooked before.  If it
overlooked the last frame, the window of the one before closes at `t` or later. -/
inductive Heeding (skew : Span) (t : Nat) : List Frame → Option Frame → List Frame → Prop
  | nothing : Heeding skew t [] none []
  | last {hs os : List Frame} {f : Frame} :
      Heeded skew hs f os → Heeding skew t (hs ++ [f]) (some f) os
  | other {hs os : List Frame} {f g : Frame} :
      Heeded skew hs f os → g.window skew ≠ f.window skew → t ≤ (f.closes skew).ticks →
        Heeding skew t (hs ++ [f, g]) (some f) os

end Frame

namespace Pair

open Node Checked

variable {ρ : Type} {c : Setting} {n m : Node ρ} {k : Nat} {f g : Frame} {now : Instant} {d : Span}
  {sent inFlight rs ts : List Frame} {s s' : Pair ρ}

/-- The child has never taken its parent for silent. -/
def Unbroken (c : Setting) (t : Nat) (rs : List Frame) (n : Node ρ) : Prop :=
  ∃ last os, (n.track c.inst c.address).Relies c.platform.receptionSkew last ∧
    Frame.Heeding c.platform.receptionSkew t rs last os ∧
    (∀ g ∈ os, g.lookahead.listen.ticks < c.platform.receptionSkew.ticks) ∧
    n.counts.windowsMissed = 0 ∧ n.counts.probesSent = 0

/-- The child has taken its parent for silent, because it overlooked a frame. -/
def Broken (c : Setting) (t : Nat) (rs : List Frame) (n : Node ρ) : Prop :=
  0 < n.counts.windowsMissed ∧ ∃ g ∈ Frame.overlooked c.platform.receptionSkew rs,
    g.arrival.ticks + g.lookahead.delay.ticks + c.platform.receptionSkew.ticks < t ∧
      c.platform.receptionSkew.ticks ≤ g.lookahead.listen.ticks

/-- What consecutive frames have to do with each other if all of them take the same time. -/
theorem Traffic.closes_eq (ht : Traffic c now sent inFlight (rs ++ f :: g :: ts))
    (horder : sent.Pairwise fun f g => f.arrival ≤ g.arrival) (hdelay : ∀ j, c.delay j = d) :
    f.expected = g.arrival ∧ f.arrival < g.arrival ∧
      (f.closes c.platform.receptionSkew).ticks = min (g.arrival.ticks + g.lookahead.delay.ticks +
        c.platform.receptionSkew.ticks) maxTicks := by
  obtain ⟨hfollows, hf, hg, hsensible, -⟩ := ht.consecutive horder
  rw [hdelay] at hf hg
  have hpast := Instant.lt_iff.1 (ht.past g (by simp))
  have hlt := hpast.trans_le now.ticks_le
  obtain ⟨hexpected, hcloses⟩ :
      f.expected = g.arrival ∧ (f.closes c.platform.receptionSkew).ticks = _ :=
    Frame.closes_eq hfollows hf hg hlt
  refine ⟨hexpected, ?_, hcloses⟩
  have hpos := hsensible.delay_pos
  have hsent := hfollows.sentAt
  rw [hg, Instant.ticks_add] at hlt
  rw [Instant.lt_iff, hf, hg, Instant.ticks_add, Instant.ticks_add]
  omega

/-- The child relies on a frame that reaches it, or overlooks it. -/
theorem Unbroken.deliver (h : Unbroken c (k + 1) rs n) (hdelay : ∀ j, c.delay j = d)
    (ht : Traffic c now sent inFlight (rs ++ g :: ts))
    (horder : sent.Pairwise fun f g => f.arrival ≤ g.arrival) (hk : k < maxTicks)
    (harrival : g.arrival.ticks = k) (hm : deliver c g.arrival n g = .ok m) :
    Unbroken c (k + 1) (rs ++ [g]) m := by
  obtain ⟨last, os, hrelies, hheeding, hos, hmissed, hprobes⟩ := h
  obtain ⟨hrelies', -, hmissed', hprobes'⟩ := deliver_relies hrelies hm
  rw [hmissed] at hmissed'
  rw [hprobes] at hprobes'
  cases hheeding with
  | nothing => exact ⟨_, [], hrelies', .last Frame.heeded_nil, by simp, hmissed', hprobes'⟩
  | @last hs _ f hf =>
    rw [List.append_assoc] at ht ⊢
    obtain ⟨hexpected, -, hcloses⟩ := ht.closes_eq horder hdelay
    obtain ⟨-, -, -, -, hsensible⟩ := ht.consecutive horder
    have hpos := hsensible.delay_pos
    have hintime : ¬f.expected < g.arrival := by
      rw [hexpected, Instant.lt_iff]
      exact Nat.lt_irrefl _
    by_cases heq : g.window c.platform.receptionSkew = f.window c.platform.receptionSkew
    · rw [Frame.relied, if_pos (.inr heq)] at hrelies'
      have hlast := Frame.Heeding.last (t := k + 1) (hf.next heq)
      rw [List.append_assoc] at hlast
      exact ⟨_, os, hrelies', hlast, hos, hmissed', hprobes'⟩
    · rw [Frame.relied, if_neg (not_or.2 ⟨hintime, heq⟩)] at hrelies'
      refine ⟨_, os, hrelies', .other hf heq ?_, hos, hmissed', hprobes'⟩
      omega
  | @other hs _ f h hf hne hle =>
    -- `h` was overlooked, so `g` is late.
    have ht' := ht
    rw [List.append_assoc] at ht'
    obtain ⟨hexpected, -, hcloses⟩ := ht'.closes_eq horder hdelay
    rw [show hs ++ [f, h] ++ g :: ts = (hs ++ [f]) ++ h :: g :: ts by simp] at ht
    obtain ⟨hexpected', hlt, -⟩ := ht.closes_eq horder hdelay
    have hlate : f.expected < g.arrival := by
      rw [hexpected]
      exact hlt
    rw [Frame.relied, if_pos (.inl hlate)] at hrelies'
    refine ⟨_, os ++ [h], hrelies', .last (hf.skip hne), ?_, hmissed', hprobes'⟩
    intro x hx
    rcases List.mem_append.1 hx with hx | hx
    · exact hos x hx
    · obtain rfl := List.mem_singleton.1 hx
      -- Otherwise the alarm of the window had rung before `g` came.
      have hticks := congrArg Instant.ticks hexpected'
      simp only [Frame.expected, Instant.ticks_add] at hticks
      omega

theorem Broken.deliver (h : Broken c k rs n)
    (hm : deliver c now n g = .ok m) : Broken c k (rs ++ [g]) m := by
  obtain ⟨hmissed, x, hx, hbreaks⟩ := h
  obtain ⟨out, hout, rfl⟩ := deliver_eq_ok hm
  refine ⟨?_, x, (Frame.overlooked_prefix rs [g]).subset hx, hbreaks⟩
  rw [(missed_dioReceived hout).1]
  exact hmissed

/-! ## Ticks -/

/-- If all frames take the same time, they arrive in order. -/
theorem Linked.inOrder (hs : Linked c k s) (hdelay : ∀ j, c.delay j = d) : s.InOrder := by
  have htrans : IsTrans Frame fun f g => f.sentAt ≤ g.sentAt := ⟨fun _ _ _ => Nat.le_trans⟩
  have hsent : s.sent.Pairwise fun f g => f.sentAt ≤ g.sentAt := by
    rw [← List.isChain_iff_pairwise]
    refine hs.traffic.follows.imp ?_
    intro f g hfollows
    rw [Instant.le_iff, hfollows.sentAt]
    omega
  refine hsent.imp_of_mem fun {f g} hf hg hle => ?_
  obtain ⟨j, hj⟩ := List.mem_iff_getElem?.1 hf
  obtain ⟨j', hj'⟩ := List.mem_iff_getElem?.1 hg
  rw [(hs.traffic.frame j f hj).2.1, (hs.traffic.frame j' g hj').2.1, hdelay, hdelay]
  rw [Instant.le_iff] at hle
  simp only [Instant.le_iff, Instant.ticks_add]
  omega

variable [RandomSource ρ]

/-- When the alarms of the child have rung, the window that it relies on is still open, or it was
missed because a frame had been overlooked. -/
theorem Unbroken.rings {child : Node ρ} {ms : List (Moment ρ)} (h : Unbroken c k s.received s.child)
    (hs : Linked c k s) (hc : c.Sound) (hdelay : ∀ j, c.delay j = d) (hk : k < maxTicks)
    (hrings : Rings c.platform s.now s.child ms child) :
    Unbroken c (k + 1) s.received child ∨ Broken c (k + 1) s.received child := by
  obtain ⟨last, os, hrelies, hheeding, hos, hmissed, hprobes⟩ := h
  have horder := hs.inOrder hdelay
  have hnow := hs.now_eq
  -- Nothing changes as long as the window is open.
  have hopen (h : ∀ f ∈ last, s.now < f.closes c.platform.receptionSkew)
      (hheeding : Frame.Heeding c.platform.receptionSkew (k + 1) s.received last os) :
      Unbroken c (k + 1) s.received child := by
    have hsame := hs.sameRecords hrelies h hrings
    refine ⟨last, os, ?_, hheeding, hos, hsame.missed.trans hmissed, hsame.probes.trans hprobes⟩
    rw [hsame.tracks]
    exact hrelies
  generalize hrs : s.received = rs at hheeding hopen ⊢
  cases hheeding with
  | nothing => exact .inl (hopen (by simp) .nothing)
  | @last hs' _ f hf =>
    refine .inl (hopen (fun x hx => ?_) (.last hf))
    obtain rfl := Option.some.inj hx
    refine hs.now_lt_closes horder hk (fun j => ?_) (by simp [hrs])
    rw [hdelay, hdelay]
    exact Nat.le_add_right _ _
  | @other hs' _ f g hf hne hle =>
    have hlast : s.received.getLast? = some g := by simp [hrs]
    have htraffic := hs.traffic
    rw [hrs] at htraffic
    by_cases hclosed : (f.closes c.platform.receptionSkew).ticks ≤ k
    · right
      obtain ⟨d', due, hsteady⟩ := hs.child.steady
      obtain ⟨-, -, hcloses⟩ := htraffic.closes_eq horder hdelay
      obtain ⟨-, -, hg, -⟩ := htraffic.consecutive horder
      have hnext := hs.now_le_next horder hlast
      have hpast := Instant.lt_iff.1 (htraffic.past g (by simp))
      have hlost := hrings.missed_lt hsteady hs.child.tracks (by omega) hc.postponeDelay
        hrelies.2.2.1 (Instant.le_iff.2 (by omega))
      rw [hdelay] at hg hnext
      rw [hg, Instant.ticks_add] at hpast
      refine ⟨Nat.lt_of_le_of_lt (Nat.zero_le _) hlost, g, ?_, ?_, ?_⟩
      · rw [hf, Frame.overlooked, if_neg hne]
        simp
      · omega
      · rw [hg, Instant.ticks_add] at hcloses
        omega
    · refine .inl (hopen (fun x hx => ?_) (.other hf hne (by omega)))
      obtain rfl := Option.some.inj hx
      rw [Instant.lt_iff]
      omega

theorem Broken.rings {child : Node ρ} {ms : List (Moment ρ)} (h : Broken c k s.received s.child)
    (hs : Linked c k s) (hc : c.Sound) (hk : k < maxTicks)
    (hrings : Rings c.platform s.now s.child ms child) : Broken c (k + 1) s.received child := by
  obtain ⟨hmissed, g, hg, hlt, hle⟩ := h
  obtain ⟨d, due, hsteady⟩ := hs.child.steady
  have hnow := hs.now_eq
  have hmono := hrings.missed_le hsteady hs.child.tracks (by omega) hc.postponeDelay
  exact ⟨Nat.lt_of_lt_of_le hmissed hmono, g, hg, by omega, hle⟩

/-- Tick by tick the child relies on its parent, or has taken it for silent. -/
theorem unbroken_or_broken_tick
    (h : Unbroken c k s.received s.child ∨ Broken c k s.received s.child) (hs : Linked c k s)
    (hs' : Linked c (k + 1) s') (horder : s'.InOrder) (hc : c.Sound) (hdelay : ∀ j, c.delay j = d)
    (hk : k < maxTicks) (ht : tick c s = .ok s') :
    Unbroken c (k + 1) s'.received s'.child ∨ Broken c (k + 1) s'.received s'.child := by
  apply tick_received (I := fun rs n => Unbroken c (k + 1) rs n ∨ Broken c (k + 1) rs n) ht hs hs'
  · intro child ms hrings
    show Unbroken c (k + 1) s.received child ∨ Broken c (k + 1) s.received child
    rcases h with h | h
    · exact h.rings hs hc hdelay hk hrings
    · exact .inr (h.rings hs hc hk hrings)
  · intro rs f ts n m htraffic harrival hn hm
    rcases hn with hn | hn
    · exact .inl (hn.deliver hdelay htraffic horder hk harrival hm)
    · exact .inr (hn.deliver hm)

/-! ## Runs -/

theorem unbroken_or_broken {source source' : ρ} {ready : Bool} (hc : c.Sound)
    (hdelay : ∀ j, c.delay j = d) (hk : k ≤ maxTicks)
    (h : run c source source' ready k = .ok s) (horder : s.InOrder) :
    Unbroken c k s.received s.child ∨ Broken c k s.received s.child := by
  refine run_invariant hc
    (J := fun k s => Unbroken c k s.received s.child ∨ Broken c k s.received s.child)
    (fun s hfresh hnil => ?_)
    (fun k s s' hk hs hs' horder ht hkept =>
      unbroken_or_broken_tick hkept hs hs' horder hc hdelay hk ht) hk h horder
  rw [hnil]
  exact .inl ⟨none, [], hfresh.track, .nothing, by simp, hfresh.missed, hfresh.probes⟩

omit [RandomSource ρ] in
/-- If no window was missed, an overlooked frame that came in a window which has closed since
announced a listen phase shorter than the skew. -/
theorem Unbroken.spared (h : Unbroken c k rs n) (hdelay : ∀ j, c.delay j = d)
    (ht : Traffic c now sent inFlight rs)
    (horder : sent.Pairwise fun f g => f.arrival ≤ g.arrival)
    (hg : g ∈ Frame.overlooked c.platform.receptionSkew rs)
    (hlt : g.arrival.ticks + g.lookahead.delay.ticks + c.platform.receptionSkew.ticks < k) :
    g.lookahead.listen.ticks < c.platform.receptionSkew.ticks := by
  obtain ⟨last, os, -, hheeding, hos, -⟩ := h
  cases hheeding with
  | nothing => cases hg
  | last hf =>
    rw [hf.overlooked_eq] at hg
    exact hos g hg
  | @other hs _ f x hf hne hle =>
    rw [hf, Frame.overlooked, if_neg hne] at hg
    rcases List.mem_append.1 hg with hg | hg
    · exact hos g hg
    · obtain rfl := List.mem_singleton.1 hg
      obtain ⟨-, -, hcloses⟩ := ht.closes_eq horder hdelay
      omega

/-- With one delay for all frames, the parent is taken for silent exactly when a frame was
overlooked that announced a listen phase no shorter than the skew, and the window of the frame
before has closed.  This does not happen if the interval doubles at most once. -/
theorem silent_iff_overlooked (hc : c.Sound) (hdelay : ∀ j, c.delay j = d) (source source' : ρ)
    (ready : Bool) (hk : k ≤ maxTicks) :
    (run c source source' ready k).FinishesBelow (9 * k + 2) ∧
      ∀ s, run c source source' ready k = .ok s →
        s.sent = s.received ++ s.inFlight ∧
        (s.child.counts.windowsMissed = 0 ∧ s.child.counts.probesSent = 0 ↔
          ∀ g ∈ Frame.overlooked c.platform.receptionSkew s.received,
            g.arrival.ticks + g.lookahead.delay.ticks + c.platform.receptionSkew.ticks < k →
              g.lookahead.listen.ticks < c.platform.receptionSkew.ticks) ∧
        (c.params.doublings.toNat ≤ 1 →
          s.child.counts.windowsMissed = 0 ∧ s.child.counts.probesSent = 0) := by
  obtain ⟨hfinish, hlinked⟩ := run_linked hc source source' ready hk
  refine ⟨hfinish, ?_⟩
  intro s hs
  have hl := hlinked s hs
  have horder := hl.inOrder hdelay
  have hiff : s.child.counts.windowsMissed = 0 ∧ s.child.counts.probesSent = 0 ↔
      ∀ g ∈ Frame.overlooked c.platform.receptionSkew s.received,
        g.arrival.ticks + g.lookahead.delay.ticks + c.platform.receptionSkew.ticks < k →
          g.lookahead.listen.ticks < c.platform.receptionSkew.ticks := by
    rcases unbroken_or_broken hc hdelay hk hs horder with h | ⟨hmissed, g, hg, hlt, hle⟩
    · refine ⟨fun _ g hg hlt => h.spared hdelay hl.traffic horder hg hlt, fun _ => ?_⟩
      obtain ⟨-, -, -, -, -, hcounts⟩ := h
      exact hcounts
    · refine ⟨fun h => absurd h.1 (by omega), ?_⟩
      intro h
      exact absurd (h g hg hlt) (Nat.not_lt.2 hle)
  refine ⟨hl.traffic.order horder, hiff, fun hfixed => hiff.2 ?_⟩
  have hsensible (f : Frame) (hf : f ∈ s.received) : f.Sensible c.platform c.params := by
    obtain ⟨j, hj⟩ := List.mem_iff_getElem?.1 hf
    exact (hl.traffic.received_frame horder hj).2
  rw [Frame.overlooked_eq_nil fun f hf g hg =>
    window_eq hfixed (hsensible f hf) (hsensible g hg) c.platform.receptionSkew]
  simp

/-- A parent whose interval doubles from 128 to 512 milliseconds, over a link on which every frame
takes one. -/
def doubling : Setting where
  platform := .millis
  inst := 1
  params := { minExponent := 7, doublings := 2 }
  address := .linkLocal 1
  delay _ := .ofTicks 1

/-- The second frame comes in time, at 329, and announces a window of 512 milliseconds after one of
256.  It is overlooked, and the window of the first one closes at 785. -/
theorem doubling_is_silent :
    ∃ s : Pair Generator, run doubling (.fixed 200) (.fixed 0) true 786 = .ok s ∧
      s.received.map (fun f => f.arrival.ticks) = [73, 329] ∧
      ¬(s.child.counts.windowsMissed = 0 ∧ s.child.counts.probesSent = 0) := by
  have hsilent := silent_iff_overlooked (c := doubling) (d := .ofTicks 1) (k := 786)
    ⟨by decide, by decide, by decide, by decide, by decide⟩ (fun _ => rfl) (Generator.fixed 200)
    (.fixed 0) true (by decide)
  have hrun : (run doubling (Generator.fixed 200) (.fixed 0) true 786).toOption.map
      (fun s => (s.received.map (fun f => f.arrival.ticks),
        (Frame.overlooked Platform.millis.receptionSkew s.received).map
          fun g => (g.arrival.ticks, g.lookahead.delay.ticks, g.lookahead.listen.ticks))) =
      some ([73, 329], [(329, 56, 456)]) := by decide +kernel
  obtain ⟨s, hs, hrun⟩ := Checked.eq_ok_of_map_toOption hrun
  simp only [Prod.mk.injEq] at hrun
  obtain ⟨hreceived, hoverlooked⟩ := hrun
  obtain ⟨g, hg, hticks⟩ := List.map_eq_singleton_iff.1 hoverlooked
  simp only [Prod.mk.injEq] at hticks
  obtain ⟨harrival, hdelay, hlisten⟩ := hticks
  have hmem : g ∈ Frame.overlooked doubling.platform.receptionSkew s.received := by
    show g ∈ Frame.overlooked Platform.millis.receptionSkew s.received
    rw [hg]
    exact List.mem_singleton_self g
  have hskew : doubling.platform.receptionSkew.ticks = 400 := rfl
  refine ⟨s, hs, hreceived, ?_⟩
  intro hnone
  have hlt := (hsilent.2 s hs).2.1.1 hnone g hmem (by omega)
  omega

end Pair

end TrickleNet
