import Mathlib
import TrickleNet.Node.Operation
/-!
# What the steps of a node do

Inversion lemmas for the steps that a node's activities are made of: what is known about the result
of a step that finishes.  The results are given as updates of the node before, so that a proof can
read off what the step leaves alone.
-/

namespace TrickleNet

theorem NodeCounts.bump_eq_ok {c c' : NodeCounts} {k : Counter} (h : c.bump k = .ok c') :
    c.get k + 1 < wordLimit32 ∧ c' = c.set k (c.get k + 1) := by
  obtain ⟨v, hv, hc⟩ := Checked.bind_eq_ok_iff.1 h
  obtain ⟨rfl, hlt⟩ := addChecked_eq_ok_iff.1 hv
  exact ⟨hlt, (Except.ok.inj hc).symm⟩

/-- An interval that begins takes the current split, clears what was heard and draws the split of
the interval after it; the parents have no part in it. -/
theorem Dodag.begin_eq_ok {ρ : Type} [RandomSource ρ] {p : Platform} {d d' : Dodag} {split : Split}
    {source source' : ρ} (h : d.begin p source = .ok (split, d', source')) :
    ∃ middle next, d.currentSplit p source = .ok (split, middle) ∧
      Split.draw p d.nextExponent middle = .ok (next, source') ∧
      d.counts.intervals + 1 < wordLimit32 ∧ d.counts.received + d.heard < wordLimit32 ∧
      d' = { d with
        jitter := split.jitter
        phase := .listen
        heard := 0
        pending := some ⟨d.nextExponent, next⟩
        counts := { d.counts with
          intervals := d.counts.intervals + 1
          received := d.counts.received + d.heard } } := by
  obtain ⟨⟨s, middle⟩, hs, h⟩ := Checked.bind_eq_ok_iff.1 h
  obtain ⟨intervals, hi, h⟩ := Checked.bind_eq_ok_iff.1 h
  obtain ⟨received, hr, h⟩ := Checked.bind_eq_ok_iff.1 h
  obtain ⟨⟨next, last⟩, hn, h⟩ := Checked.bind_eq_ok_iff.1 h
  obtain ⟨rfl, hilt⟩ := addChecked_eq_ok_iff.1 hi
  obtain ⟨rfl, hrlt⟩ := addChecked_eq_ok_iff.1 hr
  cases h
  exact ⟨middle, next, hs, hn, hilt, hrlt, rfl⟩

namespace Node

variable {ρ : Type} {n m : Node ρ} {i : InstanceId} {a : Address} {d : Dodag} {now : Instant}

/-- A count changes nothing but its counter. -/
theorem count_eq_ok {k : Counter} (h : n.count k = .ok m) :
    n.counts.get k + 1 < wordLimit32 ∧
      m = { n with counts := n.counts.set k (n.counts.get k + 1) } := by
  obtain ⟨counts, hc, hm⟩ := Checked.bind_eq_ok_iff.1 h
  obtain ⟨hlt, rfl⟩ := NodeCounts.bump_eq_ok hc
  exact ⟨hlt, (Except.ok.inj hm).symm⟩

/-- A message goes into the outbox or is counted as lost. -/
theorem send_eq_ok {c : Control} (h : n.send c = .ok m) :
    n.outbox.hasRoom = true ∧ m = { n with outbox := n.outbox.offer c } ∨
      n.outbox.hasRoom = false ∧ n.count .controlDropped = .ok m := by
  unfold send at h
  split at h
  · rename_i hroom
    exact .inl ⟨hroom, (Except.ok.inj h).symm⟩
  · rename_i hroom
    exact .inr ⟨by simpa using hroom, h⟩

theorem send_unchanged {c : Control} (h : n.send c = .ok m) :
    ∃ outbox counts, m = { n with outbox, counts } := by
  rcases send_eq_ok h with ⟨-, rfl⟩ | ⟨-, h⟩
  · exact ⟨_, _, rfl⟩
  · obtain ⟨-, rfl⟩ := count_eq_ok h
    exact ⟨_, _, rfl⟩

/-- A probe changes nothing but the outbox, the counters and the trace. -/
theorem sendProbe_unchanged (h : n.sendProbe i a = .ok m) :
    ∃ outbox counts trace, m = { n with outbox, counts, trace } := by
  obtain ⟨k, hk, hm⟩ := Checked.bind_eq_ok_iff.1 h
  obtain ⟨-, rfl⟩ := count_eq_ok hk
  obtain ⟨outbox, counts, rfl⟩ := send_unchanged hm
  exact ⟨_, _, _, rfl⟩

/-! ## Reporting and maintenance -/

variable {p : Platform}

/-- The alarm of a report postpones it, sends it to the preferred parent, or finds none. -/
theorem reportRings_eq_ok (h : reportRings p n i now = .ok m) :
    (n.mayAdvertise = false ∧ n.addressReady = false ∧
      ∃ k, n.count .daoPostponed = .ok k ∧
        m = (k.emit (.daoPostponed i)).arm (.report i) now p.postponeDelay) ∨
    (n.mayAdvertise = true ∨ n.addressReady = true) ∧
      (n.dodags.find? i = none ∧ m = n ∨
        ∃ d, n.dodags.find? i = some d ∧
          ((∃ a k l, d.preferred = some a ∧ n.count .daoSent = .ok k ∧
              (k.emit (.daoSent i a)).send (.dao i a d.params.lifetime) = .ok l ∧
              m = { l with alarms := l.alarms.stop (.report i) }) ∨
            d.preferred = none ∧
              m = { n.emit (.noDaoParent i) with alarms := n.alarms.stop (.report i) })) := by
  unfold reportRings at h
  split at h
  · rename_i hready
    obtain ⟨k, hk, h⟩ := Checked.bind_eq_ok_iff.1 h
    simp only [Bool.and_eq_true, Bool.not_eq_true'] at hready
    exact .inl ⟨hready.1, hready.2, k, hk, (Except.ok.inj h).symm⟩
  rename_i hready
  refine .inr ⟨by cases hm : n.mayAdvertise <;> simp_all, ?_⟩
  split at h
  · rename_i hnone
    exact .inl ⟨hnone, (Except.ok.inj h).symm⟩
  · rename_i d hd
    refine .inr ⟨d, hd, ?_⟩
    dsimp only at h
    split at h
    · rename_i a ha
      obtain ⟨k, hk, h⟩ := Checked.bind_eq_ok_iff.1 h
      obtain ⟨l, hl, h⟩ := Checked.bind_eq_ok_iff.1 h
      exact .inl ⟨a, k, l, ha, hk, hl, (Except.ok.inj h).symm⟩
    · rename_i hnone
      exact .inr ⟨hnone, (Except.ok.inj h).symm⟩

/-- The ticker solicits all neighbours when the node is detached and has not done so for long. -/
theorem solicitDetached_eq_ok (h : solicitDetached p n = .ok m) :
    ((n.dodags.size = 0 ∧ p.solicitInterval.toNat ≤ n.sinceSolicit) ∧
      ∃ k : Node ρ, Node.count { n with sinceSolicit := 0 } .disBroadcast = .ok k ∧
        (k.emit .disBroadcast).send (.dis none) = .ok m) ∨
    ¬(n.dodags.size = 0 ∧ p.solicitInterval.toNat ≤ n.sinceSolicit) ∧ m = n := by
  unfold solicitDetached at h
  split at h
  · rename_i hlong
    obtain ⟨k, hk, h⟩ := Checked.bind_eq_ok_iff.1 h
    exact .inl ⟨hlong, k, hk, h⟩
  · rename_i hlong
    exact .inr ⟨hlong, (Except.ok.inj h).symm⟩

theorem foldl_recompute (l : List InstanceId) (u : RouteUpkeep) :
    l.foldl .recompute u = { u with calls := (l.map .recompute).reverse ++ u.calls } := by
  induction l generalizing u with
  | nil => rfl
  | cons i l ih => simp [ih, RouteUpkeep.recompute]

/-- Stale routes are purged, and then the ranks of all instances are recomputed in their order. -/
theorem ageRoutes_eq_ok (h : n.ageRoutes = .ok m) :
    ∃ upkeep : RouteUpkeep, upkeep.purges = n.upkeep.purges + 1 ∧
      upkeep.calls =
        (n.dodags.keys.map RouteCall.recompute).reverse ++ .purge :: n.upkeep.calls ∧
      m = { n with upkeep } := by
  obtain ⟨upkeep, hupkeep, h⟩ := Checked.bind_eq_ok_iff.1 h
  obtain ⟨purges, hpurges, hupkeep⟩ := Checked.bind_eq_ok_iff.1 hupkeep
  obtain ⟨rfl, -⟩ := addChecked_eq_ok_iff.1 hpurges
  obtain rfl := Except.ok.inj hupkeep
  obtain rfl := Except.ok.inj h
  exact ⟨_, by rw [foldl_recompute], by rw [foldl_recompute], rfl⟩

/-- A tick ages the routes, counts itself, solicits if that is due, and arms the next tick. -/
theorem upkeepRings_eq_ok (h : upkeepRings p n = .ok m) :
    ∃ k l, n.ageRoutes = .ok k ∧
      solicitDetached p { k with sinceSolicit := min (k.sinceSolicit + 1) 65535 } = .ok l ∧
        m = { l with alarms := l.alarms.rearm .upkeep } := by
  obtain ⟨k, hk, h⟩ := Checked.bind_eq_ok_iff.1 h
  obtain ⟨l, hl, h⟩ := Checked.bind_eq_ok_iff.1 h
  exact ⟨k, l, hk, hl, (Except.ok.inj h).symm⟩

/-! ## Advertising -/

/-- A decision advertises or counts an advertisement left out, and waits for the end of the
interval. -/
theorem takeDecision_eq_ok (h : n.takeDecision i d now = .ok m) :
    (d.heard < d.params.redundancy.toNat ∧ d.counts.sent + 1 < wordLimit32 ∧
      ∃ k, ((n.putDodag i { d with
          phase := .jitter
          counts := { d.counts with sent := d.counts.sent + 1 } }).emit (.dioSent i)).send
            (.dio i d.lookahead) = .ok k ∧
        m = k.arm (.advertise i) now d.jitter) ∨
    (d.params.redundancy.toNat ≤ d.heard ∧ d.counts.suppressed + 1 < wordLimit32 ∧
      m = ((n.putDodag i { d with
        phase := .jitter
        counts := { d.counts with suppressed := d.counts.suppressed + 1 } }).emit
          (.dioSuppressed i d.heard d.params.redundancy)).arm (.advertise i) now d.jitter) := by
  unfold takeDecision at h
  split at h
  · rename_i hheard
    obtain ⟨sent, hs, h⟩ := Checked.bind_eq_ok_iff.1 h
    obtain ⟨rfl, hlt⟩ := addChecked_eq_ok_iff.1 hs
    obtain ⟨k, hk, h⟩ := Checked.bind_eq_ok_iff.1 h
    exact .inl ⟨hheard, hlt, k, hk, (Except.ok.inj h).symm⟩
  · rename_i hheard
    obtain ⟨suppressed, hs, h⟩ := Checked.bind_eq_ok_iff.1 h
    obtain ⟨rfl, hlt⟩ := addChecked_eq_ok_iff.1 hs
    exact .inr ⟨by omega, hlt, (Except.ok.inj h).symm⟩

variable [RandomSource ρ]

theorem beginInterval_eq_ok (hd : n.dodags.find? i = some d)
    (h : beginInterval p n i now = .ok m) :
    ∃ split d' source, d.begin p n.source = .ok (split, d', source) ∧
      m = ((({ n with source }).putDodag i d').emit
        (.intervalStarted i d'.exponent split.listen split.jitter)).arm (.advertise i) now
          split.listen := by
  simp only [beginInterval, hd] at h
  obtain ⟨⟨split, d', source⟩, hb, h⟩ := Checked.bind_eq_ok_iff.1 h
  exact ⟨split, d', source, hb, (Except.ok.inj h).symm⟩

/-- A reset is refused, has nothing to do, or begins the shortest interval. -/
theorem resetDio_eq_ok {force : Bool} {out : Outcome (Node ρ)}
    (h : resetDio p n i force now = .ok out) :
    out.state = n ∨
      ∃ d k, n.dodags.find? i = some d ∧
        (n.putDodag i d.restart).count .dioResets = .ok k ∧
        beginInterval p (k.emit (.trickleReset i force)) i now = .ok out.state := by
  unfold resetDio at h
  split at h
  · left
    rw [← Except.ok.inj h]
    rfl
  · rename_i d hd
    split at h
    · left
      rw [← Except.ok.inj h]
      rfl
    · obtain ⟨k, hk, h⟩ := Checked.bind_eq_ok_iff.1 h
      obtain ⟨m, hm, h⟩ := Checked.bind_eq_ok_iff.1 h
      rw [← Except.ok.inj h]
      exact .inr ⟨d, k, hd, hk, hm⟩

/-- An alarm of the trickle timer postpones, decides, or ends the interval. -/
theorem advertiseRings_eq_ok (h : advertiseRings p n i now = .ok m) :
    (n.latchReady.mayAdvertise = false ∧
      ∃ k, n.latchReady.count .dioPostponed = .ok k ∧
        m = (k.emit (.dioPostponed i)).arm (.advertise i) now p.postponeDelay) ∨
    n.latchReady.mayAdvertise = true ∧
      (n.dodags.find? i = none ∧ m = n.latchReady ∨
        ∃ d, n.dodags.find? i = some d ∧
          (d.phase = .listen ∧ n.latchReady.takeDecision i d now = .ok m ∨
            d.phase ≠ .listen ∧ endInterval p n.latchReady i d now = .ok m)) := by
  unfold advertiseRings at h
  dsimp only at h
  split at h
  · rename_i hready
    obtain ⟨k, hk, h⟩ := Checked.bind_eq_ok_iff.1 h
    exact .inl ⟨by simpa using hready, k, hk, (Except.ok.inj h).symm⟩
  · rename_i hready
    refine .inr ⟨by simpa using hready, ?_⟩
    have hsame : n.latchReady.dodags = n.dodags := rfl
    rw [hsame] at h
    split at h
    · rename_i hnone
      exact .inl ⟨hnone, (Except.ok.inj h).symm⟩
    · rename_i d hd
      refine .inr ⟨d, hd, ?_⟩
      split at h <;> rename_i hphase
      · exact .inl ⟨hphase, h⟩
      · exact .inr ⟨by simp [hphase], h⟩
      · exact .inr ⟨by simp [hphase], h⟩

end Node

end TrickleNet
