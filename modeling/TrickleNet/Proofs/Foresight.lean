import Mathlib
import TrickleNet.Proofs.Link
/-!
# What the child foresees

A child that has heard its parent relies on one frame: its window opens, its next advertisement is
expected and its window closes as that frame announced (`Track.Relies`).  `Frame.relied` says which
frame it relies on after another one, and `deliver_relies` that the child does so, with a sample for
each frame that comes later than expected and no other.

`run_invariant` is the rule for properties of all runs, and `tick_received` the one for a tick, in
which the alarms of the child ring, and then the frames that are due reach it one by one.
-/

namespace TrickleNet

/-! ## The frame that a child relies on -/

namespace Frame

/-- When the next frame is expected, as far as this one says. -/
def expected (f : Frame) : Instant := f.arrival + f.lookahead.delay + f.lookahead.listen

/-- The length of the window that the frame announces. -/
def window (skew : Span) (f : Frame) : Span := f.lookahead.listen + (f.lookahead.jitter + skew)

/-- When that window closes. -/
def closes (skew : Span) (f : Frame) : Instant :=
  f.arrival + (f.lookahead.delay + f.lookahead.listen + (f.lookahead.jitter + skew))

/-- The frame that a child relies on after the frame `g`, if it relied on `last` before.  A frame
that comes in time and announces a window of another length does not count. -/
def relied (skew : Span) (last : Option Frame) (g : Frame) : Frame :=
  match last with
  | none => g
  | some f => if f.expected < g.arrival ∨ g.window skew = f.window skew then g else f

/-- How late a frame is, if it is late. -/
def lateness (last : Option Frame) (g : Frame) : List Span :=
  match last with
  | none => []
  | some f => if f.expected < g.arrival then [g.arrival - f.expected] else []

end Frame

/-- The window is the one that the frame announced. -/
structure Watch.Relies (skew : Span) (f : Frame) (w : Watch) : Prop where
  stage : w.stage = .awaitingWindow
  opens : w.opens = f.arrival + f.lookahead.delay
  listen : w.listen = f.lookahead.listen
  jitter : w.jitter = f.lookahead.jitter + skew

/-- The neighbour is preferred, and the node relies on what it announced last, if it did. -/
def Track.Relies (skew : Span) (last : Option Frame) (t : Track) : Prop :=
  match last with
  | none => t = ⟨True, some {}, none, none⟩
  | some f => t.preferred ∧ (∃ w, t.watch = some w ∧ w.Relies skew f) ∧
      t.closing = some (f.closes skew) ∧ t.probing = none

theorem Track.Relies.preferred {skew : Span} {last : Option Frame} {t : Track}
    (h : t.Relies skew last) : t.preferred ∧ t.watch.isSome := by
  cases last with
  | none =>
    subst h
    exact ⟨trivial, rfl⟩
  | some f =>
    obtain ⟨hp, ⟨w, hw, -⟩, -⟩ := h
    exact ⟨hp, by simp [hw]⟩

theorem Track.Relies.probing {skew : Span} {last : Option Frame} {t : Track}
    (h : t.Relies skew last) : t.probing = none := by
  cases last with
  | none =>
    subst h
    rfl
  | some f => exact h.2.2.2

/-! ## Hearing a frame -/

namespace Watch

variable {skew : Span} {f g : Frame} {w : Watch}

theorem Relies.expected_eq (h : w.Relies skew f) : w.expected = f.expected := by
  rw [expected, h.opens, h.listen]
  rfl

/-- How a frame is taken by a child that relies on another one. -/
theorem Relies.reception (h : w.Relies skew f) :
    w.reception g.lookahead.listen (g.lookahead.jitter + skew) g.arrival =
      if f.expected < g.arrival then .late
      else if g.window skew = f.window skew then .repeated
      else if g.arrival < f.expected then .early
      else .overlooked := by
  have hlength : w.length = f.window skew := by
    rw [length, h.listen, h.jitter]
    rfl
  rw [Watch.reception, h.stage, h.expected_eq, hlength]
  rfl

theorem relies_predict (hw : w.stage = .awaitingWindow) :
    (w.predict g.lookahead.delay g.lookahead.listen (g.lookahead.jitter + skew)
      g.arrival).Relies skew g :=
  ⟨hw, rfl, rfl, rfl⟩

end Watch

/-- After a frame the child relies on it, or on the one before. -/
theorem Track.Relies.hear {skew : Span} {last : Option Frame} {g : Frame} {t : Track} {w : Watch}
    (h : t.Relies skew last) (hw : t.watch = some w) :
    (t.hear w g.lookahead.delay g.lookahead.listen (g.lookahead.jitter + skew) g.arrival).Relies
      skew (some (g.relied skew last)) := by
  cases last with
  | none =>
    subst h
    obtain rfl : w = {} := (Option.some.inj hw).symm
    exact ⟨trivial, ⟨_, rfl, Watch.relies_predict rfl⟩, rfl, rfl⟩
  | some f =>
    obtain ⟨hp, ⟨w', hw', hf⟩, hclosing, hprobing⟩ := h
    obtain rfl : w = w' := Option.some.inj (hw.symm.trans hw')
    have hr := hf.reception (g := g)
    by_cases hlate : f.expected < g.arrival
    · rw [if_pos hlate] at hr
      rw [Frame.relied, if_pos (.inl hlate)]
      refine ⟨hp, ⟨_, rfl, ?_⟩, ?_, ?_⟩
      · rw [Watch.hear, hr]
        exact Watch.relies_predict hf.stage
      · simp [Track.hear, Watch.closing?, hr, Frame.closes]
      · simp [Track.hear, hr, hprobing]
    rw [if_neg hlate] at hr
    by_cases hwindow : g.window skew = f.window skew
    · rw [if_pos hwindow] at hr
      rw [Frame.relied, if_pos (.inr hwindow)]
      refine ⟨hp, ⟨_, rfl, ?_⟩, ?_, ?_⟩
      · rw [Watch.hear, hr]
        exact Watch.relies_predict hf.stage
      · simp [Track.hear, Watch.closing?, hr, Frame.closes]
      · simp [Track.hear, hr, hprobing]
    · rw [if_neg hwindow] at hr
      rw [Frame.relied, if_neg (not_or.2 ⟨hlate, hwindow⟩)]
      have hset : w.closing? g.lookahead.delay g.lookahead.listen (g.lookahead.jitter + skew)
          g.arrival = none := by
        rw [Watch.closing?, hr]
        split_ifs <;> rfl
      refine ⟨hp, ⟨w, ?_, hf⟩, ?_, ?_⟩
      · rw [Track.hear, Watch.hear_eq_self hset]
      · simp [Track.hear, hset, hclosing]
      · simp [Track.hear, hprobing]

namespace Pair

open Node Checked

variable {ρ : Type} {c : Setting} {n m : Node ρ} {k : Nat} {f g : Frame} {last : Option Frame}
  {s s' : Pair ρ}

/-- A frame that reaches the child changes what it relies on, and is a sample if it is late. -/
theorem deliver_relies (hn : (n.track c.inst c.address).Relies c.platform.receptionSkew last)
    (h : deliver c g.arrival n g = .ok m) :
    (m.track c.inst c.address).Relies c.platform.receptionSkew
        (some (g.relied c.platform.receptionSkew last)) ∧
      m.samples = n.samples ++ (Frame.lateness last g).map (⟨c.inst, c.address, ·⟩) ∧
      m.counts.windowsMissed = n.counts.windowsMissed ∧
      m.counts.probesSent = n.counts.probesSent := by
  obtain ⟨out, hout, rfl⟩ := deliver_eq_ok h
  obtain ⟨w, hw⟩ := Option.isSome_iff_exists.1 hn.preferred.2
  obtain ⟨d, hd, hpref, hfind⟩ := dodag_of_track hn.preferred.1 hw
  have htrack := track_dioReceived (i := c.inst) (a := c.address) hd hpref hfind hout
  rw [if_pos ⟨rfl, rfl⟩] at htrack
  refine ⟨?_, ?_, missed_dioReceived hout⟩
  · rw [htrack]
    exact hn.hear hw
  · rw [samples_dioReceived hd hpref hfind hout]
    congr 1
    cases last with
    | none =>
      obtain rfl : w = {} := by
        rw [show n.track c.inst c.address = _ from hn] at hw
        exact (Option.some.inj hw).symm
      rfl
    | some f =>
      obtain ⟨-, ⟨w', hw', hf⟩, -⟩ := hn
      obtain rfl : w = w' := Option.some.inj (hw.symm.trans hw')
      simp only [Watch.reception_eq_late_iff, hf.stage, true_and, hf.expected_eq, Frame.lateness]
      split <;> rfl

/-! ## Ticks and runs -/

theorem now_le_of_mem_load {now : Instant} {count : Nat} {messages : List Control}
    (h : f ∈ load c now count messages) : now ≤ f.arrival := by
  obtain ⟨j, hj, rfl⟩ := List.mem_mapIdx.1 h
  have hle := now.ticks_le
  rw [Instant.le_iff, Instant.ticks_add]
  omega

variable [RandomSource ρ]

/-- What a tick means to the child. -/
theorem tick_child (h : tick c s = .ok s') (hs : Linked c k s) :
    ∃ (child : Node ρ) (ms : List (Moment ρ)) (frames : List Frame),
      Rings c.platform s.now s.child ms child ∧
      frames.foldlM (deliver c s.now) { child with outbox := ∅ } = .ok s'.child ∧
      s'.received = s.received ++ frames ∧ ∀ f ∈ frames, f.arrival = s.now := by
  obtain ⟨parent, child, child', frames, -, hchild, hframes, hfinal, rfl⟩ := tick_eq_ok h
  obtain ⟨ms, hrings⟩ := rings_of_handleTimer hchild
  refine ⟨child, ms, _, hrings, hfinal, rfl, ?_⟩
  intro f hf
  obtain ⟨hmem, hdue⟩ := List.mem_filter.1 hf
  have hle : s.now ≤ f.arrival := by
    rcases List.mem_append.1 hmem with hmem | hmem
    · exact hs.traffic.ahead f hmem
    · rw [hframes] at hmem
      exact now_le_of_mem_load hmem
  have hge := of_decide_eq_true hdue
  exact Instant.ext (Nat.le_antisymm hge hle)

/-- What holds once the alarms of the child have rung, and is kept by each frame, holds after the
tick. -/
theorem tick_received {I : List Frame → Node ρ → Prop} (ht : tick c s = .ok s') (hs : Linked c k s)
    (hs' : Linked c (k + 1) s')
    (hrings : ∀ child ms, Rings c.platform s.now s.child ms child →
      I s.received { child with outbox := ∅ })
    (hdeliver : ∀ rs f ts n m, Traffic c s'.now s'.sent s'.inFlight (rs ++ f :: ts) →
      f.arrival.ticks = k → I rs n → deliver c f.arrival n f = .ok m → I (rs ++ [f]) m) :
    I s'.received s'.child := by
  obtain ⟨child, ms, frames, hchild, hfinal, hreceived, harrival⟩ := tick_child ht hs
  have htraffic := hs'.traffic
  rw [hreceived] at htraffic ⊢
  refine foldlM_deliver ?_ (hrings child ms hchild) hfinal
  intro hs₀ f ts n m hframes hn hm
  have hnow : f.arrival = s.now := by
    apply harrival
    rw [hframes]
    exact List.mem_append_right _ List.mem_cons_self
  rw [hframes, ← List.append_assoc] at htraffic
  rw [← hnow] at hm
  exact hdeliver _ f ts n m htraffic (by rw [hnow, hs.now_eq]) hn hm

theorem InOrder.of_tick (h : tick c s = .ok s') (horder : s'.InOrder) : s.InOrder := by
  obtain ⟨_, _, _, frames, -, -, -, -, rfl⟩ := tick_eq_ok h
  exact (List.pairwise_append.1 horder).1

/-- What holds at the start and after every tick holds in all runs in which frames arrive in
order. -/
theorem run_invariant {source source' : ρ} {ready : Bool} {J : Nat → Pair ρ → Prop}
    (hc : c.Sound) (hstart : ∀ s, Fresh c s.child → s.received = [] → J 0 s)
    (htick : ∀ k s s', k < maxTicks → Linked c k s → Linked c (k + 1) s' → s'.InOrder →
      tick c s = .ok s' → J k s → J (k + 1) s')
    (hk : k ≤ maxTicks) (h : run c source source' ready k = .ok s) (horder : s.InOrder) :
    J k s := by
  induction k generalizing s with
  | zero =>
    obtain ⟨-, hfresh, hreceived⟩ := (start_linked hc source source' ready).2 s h
    exact hstart s hfresh hreceived
  | succ k ih =>
    obtain ⟨s₀, hs₀, ht⟩ := Checked.bind_eq_ok_iff.1 h
    have hlinked := (run_linked hc source source' ready (Nat.le_of_succ_le hk)).2 s₀ hs₀
    have hlinked' := (run_linked hc source source' ready hk).2 s h
    exact htick k s₀ s hk hlinked hlinked' horder ht
      (ih (Nat.le_of_succ_le hk) hs₀ (horder.of_tick ht))

/-! ## The window of the next frame -/

/-- As long as the window that the child relies on is open, alarms that ring are not about the
parent. -/
theorem Linked.sameRecords {child : Node ρ} {ms : List (Moment ρ)} (hs : Linked c k s)
    (hrelies : (s.child.track c.inst c.address).Relies c.platform.receptionSkew last)
    (hopen : ∀ f ∈ last, s.now < f.closes c.platform.receptionSkew)
    (hrings : Rings c.platform s.now s.child ms child) : s.child.SameRecords child := by
  obtain ⟨d, due, hsteady⟩ := hs.child.steady
  refine hrings.sameRecords hsteady (fun e he => ?_) fun e he => ?_
  · cases last with
    | none => exact absurd ((congrArg Track.closing hrelies).symm.trans he) (by simp)
    | some f =>
      obtain rfl := Option.some.inj (hrelies.2.2.1.symm.trans he)
      exact hopen f rfl
  · exact absurd (hrelies.probing.symm.trans he) (by simp)

omit [RandomSource ρ] in
/-- If the interval doubles at most once, all intervals after the first one are of one length, and
so are the windows that frames announce. -/
theorem window_eq (hfixed : c.params.doublings.toNat ≤ 1) (hf : f.Sensible c.platform c.params)
    (hg : g.Sensible c.platform c.params) (skew : Span) : g.window skew = f.window skew := by
  have hspan (x : Frame) (hx : x.Sensible c.platform c.params) :
      x.lookahead.listen.ticks + x.lookahead.jitter.ticks =
        (intervalSpan c.platform c.params.maxExponent).ticks := by
    obtain ⟨e, hmin, hmax, hdivides⟩ := hx.divides
    have he : e = c.params.maxExponent := by
      simp only [TrickleParams.maxExponent] at hmin hmax ⊢
      omega
    rw [← he]
    exact hdivides.total
  have hf := hspan f hf
  have hg := hspan g hg
  rw [Span.ext_iff]
  simp only [Frame.window, Span.ticks_add]
  omega

omit [RandomSource ρ] in
/-- If no frame is slower than the one before by more than the skew, the next frame arrives before
the window of the last one closes. -/
theorem Linked.now_lt_closes (hs : Linked c k s) (horder : s.InOrder) (hk : k < maxTicks)
    (hskew : ∀ j, (c.delay (j + 1)).ticks ≤
      (c.delay j).ticks + c.platform.receptionSkew.ticks)
    (hf : s.received.getLast? = some f) : s.now < f.closes c.platform.receptionSkew := by
  have hnext := hs.now_le_next horder hf
  have hpos : 0 < s.received.length := by
    rw [List.length_pos_iff]
    rintro hnil
    simp [hnil] at hf
  obtain ⟨j, hj⟩ : ∃ j, s.received.length = j + 1 := ⟨s.received.length - 1, by omega⟩
  rw [List.getLast?_eq_getElem?, hj, Nat.add_sub_cancel] at hf
  obtain ⟨harrival, hsensible⟩ := hs.traffic.received_frame horder hf
  obtain ⟨_, -, -, hdivides⟩ := hsensible.divides
  have hjitter := hdivides.jitter_pos
  have hstep := hskew j
  rw [hj] at hnext
  rw [Instant.lt_iff, hs.now_eq]
  simp only [Frame.closes, harrival, Instant.ticks_add, Span.ticks_add]
  dsimp only at hjitter
  omega

end Pair

end TrickleNet
