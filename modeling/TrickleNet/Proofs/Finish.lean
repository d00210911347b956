import Mathlib
import TrickleNet.Proofs.Interval
import TrickleNet.Proofs.Tracking
/-!
# Steps that finish

A step of a node stops for no other reason than a counter that is full.  `Checked.FinishesBelow`
says so with a bound on that counter, and `Node.Within` bounds all counters of a node.  An alarm
that rings raises the bound by three at most (`handleRing_finishes`), those about one instance by
one or two, and an advertisement that is received by one (`dioReceived_finishes`).

`ringAll_finishes` is the rule for the loop that lets alarms ring: it does not run out of its budget
if each alarm that rings lowers a measure that the budget exceeds.
-/

namespace TrickleNet

/-- A computation that has a result of which `f` is known finishes. -/
theorem Checked.eq_ok_of_map_toOption {α β : Type} {x : Checked α} {f : α → β} {b : β}
    (h : x.toOption.map f = some b) : ∃ a, x = .ok a ∧ f a = b := by
  cases x with
  | error e => cases h
  | ok a => exact ⟨a, rfl, Option.some.inj h⟩

/-- The computation finishes, unless a 32-bit counter would have to hold a number up to `b`. -/
def Checked.FinishesBelow {α : Type} (x : Checked α) (b : Nat) : Prop :=
  ∀ f, x = .error f → f = .addOverflow ∧ wordLimit32 ≤ b

namespace Checked.FinishesBelow

variable {α β : Type} {x : Checked α} {b b' : Nat}

theorem ok (a : α) : FinishesBelow (.ok a) b := by
  intro f hf
  cases hf

theorem mono (h : x.FinishesBelow b) (hle : b ≤ b') : x.FinishesBelow b' := by
  intro f hf
  obtain ⟨rfl, hlimit⟩ := h f hf
  exact ⟨rfl, hlimit.trans hle⟩

/-- A chain of computations finishes when each of them does. -/
theorem bind {g : α → Checked β} (h : x.FinishesBelow b)
    (hg : ∀ a, x = .ok a → (g a).FinishesBelow b) : (x >>= g).FinishesBelow b := by
  cases x with
  | error e =>
    intro f hf
    exact h f (by cases hf; rfl)
  | ok a => exact hg a rfl

theorem addChecked {v w : Nat} (h : v + w ≤ b) :
    FinishesBelow (addChecked wordLimit32 v w) b := by
  intro f hf
  obtain ⟨rfl, hle⟩ := addChecked_eq_error_iff.1 hf
  exact ⟨rfl, hle.trans h⟩

end Checked.FinishesBelow

open Checked

/-- Every counter of the instance is at most `b`, also after what was heard is added up. -/
structure Dodag.Within (d : Dodag) (b : Nat) : Prop where
  intervals : d.counts.intervals ≤ b
  sent : d.counts.sent ≤ b
  received : d.counts.received + d.heard ≤ b
  suppressed : d.counts.suppressed ≤ b

namespace Dodag

variable {d : Dodag} {b b' : Nat}

theorem Within.mono (h : d.Within b) (hle : b ≤ b') : d.Within b' :=
  ⟨h.intervals.trans hle, h.sent.trans hle, h.received.trans hle, h.suppressed.trans hle⟩

theorem Within.grow (h : d.Within b) : d.grow.Within b := by
  rw [grow_eq]
  exact ⟨h.intervals, h.sent, h.received, h.suppressed⟩

variable {ρ : Type} [RandomSource ρ] {p : Platform} {source source' : ρ} {split : Split}
  {d' : Dodag}

theorem currentSplit_eq_ok (d : Dodag) (p : Platform) (source : ρ) :
    ∃ split source', d.currentSplit p source = .ok (split, source') := by
  obtain ⟨s, source', hs, -⟩ := Split.draw_divides p d.exponent source
  unfold currentSplit
  split
  · split
    · exact ⟨_, _, rfl⟩
    · exact ⟨s, source', hs⟩
  · exact ⟨s, source', hs⟩

theorem begin_finishes (h : d.Within b) : (d.begin p source).FinishesBelow (b + 1) := by
  obtain ⟨split, middle, hs⟩ := d.currentSplit_eq_ok p source
  unfold begin
  refine .bind (hs ▸ .ok _) ?_
  intro s _
  refine .bind (.addChecked (Nat.add_le_add_right h.intervals 1)) ?_
  intro intervals _
  refine .bind (.addChecked (h.received.trans (Nat.le_succ b))) ?_
  intro received _
  obtain ⟨next, last, hn, -⟩ := Split.draw_divides p d.nextExponent s.2
  exact .bind (hn ▸ .ok _) fun _ _ => .ok _

theorem within_begin (h : d.Within b) (hb : d.begin p source = .ok (split, d', source')) :
    d'.Within (b + 1) := by
  obtain ⟨middle, next, -, -, -, -, rfl⟩ := begin_eq_ok hb
  have := h.intervals
  have := h.sent
  have := h.received
  have := h.suppressed
  constructor <;> dsimp only <;> omega

end Dodag

namespace Node

variable {ρ : Type} {n m : Node ρ} {b b' : Nat} {i : InstanceId} {a : Address} {d : Dodag}
  {now : Instant} {p : Platform}

/-- Every counter of the node is at most `b`. -/
structure Within (n : Node ρ) (b : Nat) : Prop where
  counts : ∀ k, n.counts.get k ≤ b
  dodags : ∀ i d, n.dodags.find? i = some d → d.Within b
  purges : n.upkeep.purges ≤ b

/-- The step finishes unless a counter would exceed `b`, and leaves every counter at most `b`. -/
def Finishes (x : Checked (Node ρ)) (b : Nat) : Prop :=
  x.FinishesBelow b ∧ ∀ m, x = .ok m → m.Within b

theorem Within.mono (h : n.Within b) (hle : b ≤ b') : n.Within b' :=
  ⟨fun k => (h.counts k).trans hle, fun i d hd => (h.dodags i d hd).mono hle, h.purges.trans hle⟩

theorem Within.finishes (h : n.Within b) : Finishes (.ok n) b := by
  refine ⟨.ok n, ?_⟩
  intro m hm
  obtain rfl := Except.ok.inj hm
  exact h

theorem Within.putDodag (h : n.Within b) (hd : d.Within b) : (n.putDodag i d).Within b := by
  refine ⟨h.counts, fun j e he => ?_, h.purges⟩
  simp only [Node.putDodag, Table.find?_insert] at he
  split at he
  · obtain rfl := Option.some.inj he
    exact hd
  · exact h.dodags j e he

theorem Within.putWatch {w : Watch} (h : n.Within b) (hd : n.dodags.find? i = some d) :
    (n.putWatch i d a w).Within b := by
  have hw := h.dodags i d hd
  exact h.putDodag ⟨hw.intervals, hw.sent, hw.received, hw.suppressed⟩

theorem Finishes.mono {x : Checked (Node ρ)} (h : Finishes x b) (hle : b ≤ b') : Finishes x b' :=
  ⟨h.1.mono hle, fun m hm => (h.2 m hm).mono hle⟩

theorem Finishes.bind {α : Type} {x : Checked α} {g : α → Checked (Node ρ)}
    (h : x.FinishesBelow b) (hg : ∀ a, x = .ok a → Finishes (g a) b) : Finishes (x >>= g) b := by
  refine ⟨.bind h fun a ha => (hg a ha).1, ?_⟩
  intro k hk
  obtain ⟨a, ha, hk⟩ := Checked.bind_eq_ok_iff.1 hk
  exact (hg a ha).2 k hk

/-- A chain of two steps finishes when each of them does. -/
theorem Finishes.next {x : Checked (Node ρ)} {g : Node ρ → Checked (Node ρ)} (h : Finishes x b)
    (hle : b ≤ b') (hg : ∀ m : Node ρ, m.Within b → Finishes (g m) b') : Finishes (x >>= g) b' :=
  .bind (h.1.mono hle) fun m hm => hg m (h.2 m hm)

theorem count_finishes (h : n.Within b) (k : Counter) : Finishes (n.count k) (b + 1) := by
  constructor
  · refine .bind (.bind (.addChecked (Nat.add_le_add_right (h.counts k) 1)) fun _ _ => .ok _)
      fun _ _ => .ok _
  · intro m hm
    obtain ⟨-, rfl⟩ := count_eq_ok hm
    refine ⟨fun l => ?_, fun i d hd => (h.dodags i d hd).mono (Nat.le_succ b),
      h.purges.trans (Nat.le_succ b)⟩
    have hk := h.counts k
    have hl := h.counts l
    simp only [NodeCounts.get_set]
    split <;> omega

theorem send_finishes (h : n.Within b) (c : Control) : Finishes (n.send c) (b + 1) := by
  unfold send
  split
  · exact Within.finishes (n := { n with outbox := n.outbox.offer c })
      ⟨h.counts, h.dodags, h.purges⟩ |>.mono (Nat.le_succ b)
  · exact count_finishes h .controlDropped

/-! ## The alarms -/

theorem sendProbe_finishes (h : n.Within b) : Finishes (n.sendProbe i a) (b + 2) := by
  refine (count_finishes h .probesSent).next (Nat.le_succ _) ?_
  intro m hm
  exact send_finishes (n := m.emit (.probeSent i a)) ⟨hm.counts, hm.dodags, hm.purges⟩ _

theorem takeDecision_finishes (h : n.Within b) (hd : d.Within b) :
    Finishes (n.takeDecision i d now) (b + 2) := by
  have hmono := h.mono (Nat.le_succ b)
  have hdmono := hd.mono (Nat.le_succ b)
  unfold takeDecision
  split
  · refine .bind ((FinishesBelow.addChecked (Nat.add_le_add_right hd.sent 1)).mono (by omega))
      fun sent hsent => ?_
    obtain ⟨rfl, -⟩ := addChecked_eq_ok_iff.1 hsent
    have hput := hmono.putDodag (i := i) (d := { d with
      phase := .jitter
      counts := { d.counts with sent := d.counts.sent + 1 } })
      ⟨hdmono.intervals, Nat.add_le_add_right hd.sent 1, hdmono.received, hdmono.suppressed⟩
    refine (send_finishes (n := (n.putDodag i _).emit (.dioSent i))
      ⟨hput.counts, hput.dodags, hput.purges⟩ _).next (Nat.le_refl _) fun m hm => ?_
    exact Within.finishes (n := m.arm (.advertise i) now d.jitter) ⟨hm.counts, hm.dodags, hm.purges⟩
  · refine .bind ((FinishesBelow.addChecked (Nat.add_le_add_right hd.suppressed 1)).mono (by omega))
      fun suppressed hsuppressed => ?_
    obtain ⟨rfl, -⟩ := addChecked_eq_ok_iff.1 hsuppressed
    have hput := hmono.putDodag (i := i) (d := { d with
      phase := .jitter
      counts := { d.counts with suppressed := d.counts.suppressed + 1 } })
      ⟨hdmono.intervals, hdmono.sent, hdmono.received, Nat.add_le_add_right hd.suppressed 1⟩
    exact Within.finishes (n := ((n.putDodag i _).emit
      (.dioSuppressed i d.heard d.params.redundancy)).arm (.advertise i) now d.jitter)
      ⟨hput.counts, hput.dodags, hput.purges⟩ |>.mono (Nat.le_succ _)

variable [RandomSource ρ]

theorem within_armProbe (h : n.Within b) : (armProbe p n i a now).Within b := by
  obtain ⟨source, after, -, heq⟩ := armProbe_eq p n i a now
  rw [heq]
  exact ⟨h.counts, h.dodags, h.purges⟩

theorem watchRings_finishes (h : n.Within b) : Finishes (watchRings p n i a now) (b + 1) := by
  unfold watchRings
  split
  · exact h.finishes.mono (Nat.le_succ b)
  rename_i d hd
  split
  · exact h.finishes.mono (Nat.le_succ b)
  split
  · exact h.finishes.mono (Nat.le_succ b)
  · rename_i w _
    have hput := h.putWatch (a := a) (w := { w with stage := .silent }) hd
    refine (count_finishes hput .windowsMissed).next (Nat.le_refl _) ?_
    intro k hk
    exact (within_armProbe (n := k.emit _) ⟨hk.counts, hk.dodags, hk.purges⟩).finishes

theorem probeRings_finishes (h : n.Within b) : Finishes (probeRings p n i a now) (b + 2) := by
  unfold probeRings
  split
  · exact h.finishes.mono (by omega)
  split
  · exact h.finishes.mono (by omega)
  split
  · exact (sendProbe_finishes h).next (Nat.le_refl _) fun k hk => (within_armProbe hk).finishes
  · exact h.finishes.mono (by omega)

theorem beginInterval_finishes (h : n.Within b) : Finishes (beginInterval p n i now) (b + 1) := by
  unfold beginInterval
  split
  · exact h.finishes.mono (Nat.le_succ b)
  rename_i d hd
  refine .bind (Dodag.begin_finishes (h.dodags i d hd)) ?_
  intro r hr
  obtain ⟨split, d', source⟩ := r
  have hput := (h.mono (Nat.le_succ b)).putDodag (i := i) (Dodag.within_begin (h.dodags i d hd) hr)
  exact Within.finishes ⟨hput.counts, hput.dodags, hput.purges⟩

theorem advertiseRings_finishes (h : n.Within b) :
    Finishes (advertiseRings p n i now) (b + 2) := by
  have hlatch : n.latchReady.Within b := ⟨h.counts, h.dodags, h.purges⟩
  unfold advertiseRings
  dsimp only
  split
  · refine (count_finishes hlatch .dioPostponed).next (by omega) ?_
    intro k hk
    exact Within.finishes (n := (k.emit (.dioPostponed i)).arm (.advertise i) now p.postponeDelay)
      ⟨hk.counts, hk.dodags, hk.purges⟩ |>.mono (Nat.le_succ _)
  split
  · exact hlatch.finishes.mono (by omega)
  rename_i d hd
  split
  · exact takeDecision_finishes hlatch (h.dodags i d hd)
  all_goals
    exact (beginInterval_finishes (hlatch.putDodag (h.dodags i d hd).grow)).mono (Nat.le_succ _)

omit [RandomSource ρ] in
theorem reportRings_finishes (h : n.Within b) : Finishes (reportRings p n i now) (b + 2) := by
  have hstop (k : Node ρ) (hk : k.Within (b + 2)) :
      Finishes (.ok { k with alarms := k.alarms.stop (.report i) }) (b + 2) :=
    Within.finishes ⟨hk.counts, hk.dodags, hk.purges⟩
  unfold reportRings
  split
  · refine (count_finishes h .daoPostponed).next (Nat.le_succ _) fun k hk => ?_
    exact Within.finishes (n := (k.emit (.daoPostponed i)).arm (.report i) now p.postponeDelay)
      ⟨hk.counts, hk.dodags, hk.purges⟩ |>.mono (Nat.le_succ _)
  split
  · exact h.finishes.mono (by omega)
  rename_i d _
  cases d.preferred with
  | none => exact hstop _ (Within.mono ⟨h.counts, h.dodags, h.purges⟩ (by omega))
  | some a =>
    refine (count_finishes h .daoSent).next (Nat.le_succ _) fun k hk => ?_
    have hsent := send_finishes (n := k.emit (.daoSent i a)) ⟨hk.counts, hk.dodags, hk.purges⟩
      (.dao i a d.params.lifetime)
    exact hsent.next (Nat.le_refl _) hstop

omit [RandomSource ρ] in
theorem solicitDetached_finishes (h : n.Within b) : Finishes (solicitDetached p n) (b + 2) := by
  unfold solicitDetached
  split
  · have hreset : Node.Within { n with sinceSolicit := 0 } b := ⟨h.counts, h.dodags, h.purges⟩
    refine (count_finishes hreset .disBroadcast).next (Nat.le_succ _) fun k hk => ?_
    exact send_finishes (n := k.emit .disBroadcast) ⟨hk.counts, hk.dodags, hk.purges⟩ _
  · exact h.finishes.mono (by omega)

omit [RandomSource ρ] in
/-- A tick counts the purge of stale routes, and then what a solicitation costs. -/
theorem upkeepRings_finishes (h : n.Within b) : Finishes (upkeepRings p n) (b + 3) := by
  have haged : Finishes n.ageRoutes (b + 1) := by
    refine ⟨.bind (.bind (.addChecked ?_) fun _ _ => .ok _) fun _ _ => .ok _, fun k hk => ?_⟩
    · exact Nat.add_le_add_right h.purges 1
    · obtain ⟨upkeep, hpurges, -, rfl⟩ := ageRoutes_eq_ok hk
      refine ⟨fun c => (h.counts c).trans (Nat.le_succ b), fun i d hd => ?_, ?_⟩
      · exact (h.dodags i d hd).mono (Nat.le_succ b)
      · exact hpurges.le.trans (Nat.add_le_add_right h.purges 1)
  refine haged.next (by omega) fun k hk => ?_
  have hticked : Node.Within { k with sinceSolicit := min (k.sinceSolicit + 1) 65535 } (b + 1) :=
    ⟨hk.counts, hk.dodags, hk.purges⟩
  refine (solicitDetached_finishes hticked).next (Nat.le_refl _) fun l hl => ?_
  exact Within.finishes (n := { l with alarms := l.alarms.rearm .upkeep })
    ⟨hl.counts, hl.dodags, hl.purges⟩

/-- An alarm that rings raises no counter by more than three. -/
theorem handleRing_finishes {r : Ring} (h : n.Within b) : Finishes (handleRing p n r) (b + 3) := by
  obtain ⟨q, e⟩ := r
  cases q with
  | upkeep => exact upkeepRings_finishes h
  | advertise i => exact (advertiseRings_finishes h).mono (Nat.le_succ _)
  | report i => exact (reportRings_finishes h).mono (Nat.le_succ _)
  | watch i a => exact (watchRings_finishes h).mono (by omega)
  | probe i a => exact (probeRings_finishes h).mono (Nat.le_succ _)

omit [RandomSource ρ] in
theorem within_scheduleReception {delay listen jitter : Span} (h : n.Within b) :
    (n.scheduleReception i a delay listen jitter now).state.Within b := by
  unfold scheduleReception
  split
  · exact h
  rename_i d hd
  split
  · exact h
  split
  · exact h
  · rename_i w _
    have hput := h.putWatch (a := a) (w := { w with opens := now + delay, listen, jitter }) hd
    exact ⟨hput.counts, hput.dodags, hput.purges⟩

omit [RandomSource ρ] in
theorem lateHeard_finishes {w : Watch} {delay listen jitter : Span} (h : n.Within b)
    (hd : n.dodags.find? i = some d) (hlate : w.expected < now) :
    (n.lateHeard i d a w delay listen jitter now).FinishesBelow (b + 1) ∧
      ∀ out, n.lateHeard i d a w delay listen jitter now = .ok out → out.state.Within (b + 1) := by
  have hsince : now.since? w.expected = .ok (now - w.expected) := by
    rw [Instant.lt_iff] at hlate
    rw [Instant.since?_eq_ok_iff, Instant.ticks_sub]
    omega
  have hput := h.putWatch (a := a) (w := { w with latency := some (now - w.expected) }) hd
  have hcount := count_finishes hput .latencySamples
  refine ⟨.bind (hsince ▸ .ok _) fun latency hl => ?_, ?_⟩
  · obtain rfl := Except.ok.inj (hsince.symm.trans hl)
    exact .bind hcount.1 fun _ _ => .ok _
  · intro out hout
    obtain ⟨latency, hl, hout⟩ := Checked.bind_eq_ok_iff.1 hout
    obtain rfl := Except.ok.inj (hsince.symm.trans hl)
    obtain ⟨k, hk, hout⟩ := Checked.bind_eq_ok_iff.1 hout
    have hwithin := hcount.2 k hk
    rw [← Except.ok.inj hout]
    exact within_scheduleReception ⟨hwithin.counts, hwithin.dodags, hwithin.purges⟩

omit [RandomSource ρ] in
/-- An advertisement is handled without a fault, unless the counter of samples is full. -/
theorem dioReceived_finishes {l : Lookahead} (h : n.Within b) :
    (dioReceived p n i a l now).FinishesBelow (b + 1) ∧
      ∀ out, dioReceived p n i a l now = .ok out → out.state.Within (b + 1) := by
  by_cases hp : (n.track i a).preferred ∧ (n.track i a).watch.isSome
  · obtain ⟨hpref, hsome⟩ := hp
    obtain ⟨w, hw⟩ := Option.isSome_iff_exists.1 hsome
    obtain ⟨d, hd, hpref', hfind⟩ := dodag_of_track hpref hw
    have hput (w' : Watch) : (n.putWatch i d a w').Within b := h.putWatch hd
    rw [dioReceived_eq hd hpref' hfind]
    cases hr : w.reception l.listen (l.jitter + p.receptionSkew) now with
    | late => exact lateHeard_finishes h hd (Watch.reception_eq_late_iff.1 hr).2
    | first =>
      refine ⟨.ok _, ?_⟩
      intro out hout
      rw [← Except.ok.inj hout]
      have hw' := hput { w with stage := .awaitingWindow }
      refine within_scheduleReception (Within.mono ?_ (Nat.le_succ b))
      split <;> exact ⟨hw'.counts, hw'.dodags, hw'.purges⟩
    | answer =>
      refine ⟨.ok _, ?_⟩
      intro out hout
      rw [← Except.ok.inj hout]
      have hw' := (hput { w with
        stage := .awaitingWindow, listen := l.listen, jitter := l.jitter + p.receptionSkew }).mono
        (Nat.le_succ b)
      exact ⟨hw'.counts, hw'.dodags, hw'.purges⟩
    | repeated =>
      refine ⟨.ok _, ?_⟩
      intro out hout
      rw [← Except.ok.inj hout]
      exact within_scheduleReception (h.mono (Nat.le_succ b))
    | early | overlooked =>
      refine ⟨.ok _, ?_⟩
      intro out hout
      rw [← Except.ok.inj hout]
      exact Within.mono ⟨h.counts, h.dodags, h.purges⟩ (Nat.le_succ b)
  · constructor
    · unfold dioReceived
      split
      · exact .ok _
      rename_i d hd
      split
      · exact .ok _
      rename_i hpref
      split
      · exact .ok _
      · rename_i w hw
        rw [track_of_find? hd] at hp
        exact (hp ⟨not_ne_iff.1 hpref, by simp [hw]⟩).elim
    · intro out hout
      rw [dioReceived_of_not_preferred hp hout]
      exact h.mono (Nat.le_succ b)

/-! ## The loop that lets alarms ring -/

/-- The loop finishes within its budget if every alarm that rings lowers a measure. -/
theorem ringAll_finishes {I : Nat → Node ρ → Prop} {budget c : Nat}
    (hstep : ∀ c n r alarms, I c n → n.alarms.ring? now = some (r, alarms) →
      ∃ c' < c, (handleRing p { n with alarms } r).FinishesBelow b ∧
        ∀ m, handleRing p { n with alarms } r = .ok m → I c' m)
    (hI : I c n) (hc : c ≤ budget) :
    (ringAll p now budget n).FinishesBelow b ∧
      ∀ m, ringAll p now budget n = .ok m → ∃ c', I c' m := by
  induction budget generalizing n c with
  | zero =>
    have hnone : n.alarms.ring? now = none := by
      cases hring : n.alarms.ring? now with
      | none => rfl
      | some e =>
        obtain ⟨c', hlt, -⟩ := hstep c n e.1 e.2 hI hring
        omega
    have hdue : n.alarms.due? now = none := by simpa [AlarmTable.ring?] using hnone
    unfold ringAll
    rw [hdue]
    refine ⟨.ok n, fun m hm => ⟨c, ?_⟩⟩
    obtain rfl := Except.ok.inj hm
    exact hI
  | succ budget ih =>
    unfold ringAll ringNext
    cases hring : n.alarms.ring? now with
    | none =>
      refine ⟨.ok n, fun m hm => ⟨c, ?_⟩⟩
      obtain rfl := Except.ok.inj hm
      exact hI
    | some e =>
      obtain ⟨c', hlt, hfinish, hnext⟩ := hstep c n e.1 e.2 hI hring
      refine ⟨.bind hfinish fun m hm => (ih (hnext m hm) (by omega)).1, ?_⟩
      intro k hk
      obtain ⟨m, hm, hk⟩ := Checked.bind_eq_ok_iff.1 hk
      exact (ih (hnext m hm) (by omega)).2 k hk

end Node

end TrickleNet
