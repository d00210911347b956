import Mathlib
import TrickleNet.Proofs.Tracking
/-!
# The trickle timer of an instance

A `Timer` is what a node keeps for the trickle timer of one instance: its part of the `Dodag`,
without the parents, and when its alarm is due.  `Node.timer?` reads it off a node.

Most of what a node does has nothing to do with its trickle timers.  `Node.SameAdverts` says so of a
step: every timer is as before, the latch that lets the node advertise is as before, and no
advertisement has been queued.  What an interval, a decision or a reset do to a timer is the matter
of `TrickleNet.Proofs.Timing`.
-/

namespace TrickleNet

/-- What a node keeps of an instance apart from the parents in it. -/
def Dodag.bare (d : Dodag) : Dodag := { d with preferred := none, parents := ∅ }

/-- The trickle timer of an instance. -/
structure Timer where
  /-- What the node keeps of the instance apart from the parents in it. -/
  state : Dodag
  /-- When the alarm of the timer is due, if it is set. -/
  due : Option Instant

namespace Node

variable {ρ : Type} {n m k : Node ρ} {i j : InstanceId} {a : Address} {d d' : Dodag} {t : Timer}
  {q : Purpose} {now : Instant} {after : Span} {p : Platform}

/-- The trickle timer of an instance that the node belongs to. -/
def timer? (n : Node ρ) (i : InstanceId) : Option Timer :=
  (n.dodags.find? i).map fun d => ⟨d.bare, n.alarms.deadline? (.advertise i)⟩

theorem timer?_of_find? (hd : n.dodags.find? i = some d) :
    n.timer? i = some ⟨d.bare, n.alarms.deadline? (.advertise i)⟩ := by
  rw [timer?, hd]
  rfl

theorem timer?_eq_none_iff : n.timer? i = none ↔ n.dodags.find? i = none := Option.map_eq_none_iff

/-- A timer belongs to an instance that is joined. -/
theorem find?_of_timer? (ht : n.timer? i = some t) :
    ∃ d, n.dodags.find? i = some d ∧ t = ⟨d.bare, n.alarms.deadline? (.advertise i)⟩ := by
  obtain ⟨d, hd, rfl⟩ := Option.map_eq_some_iff.1 ht
  exact ⟨d, hd, rfl⟩

theorem timer?_congr (hd : m.dodags = n.dodags) (ha : m.alarms = n.alarms) :
    m.timer? i = n.timer? i := by
  rw [timer?, timer?, hd, ha]

theorem SameCore.timer? (h : n.SameCore m) (i : InstanceId) : m.timer? i = n.timer? i :=
  timer?_congr h.dodags h.alarms

/-- An update of one instance and of alarms of its own leaves the timers of the others alone. -/
theorem timer?_of_ne (hfind : m.dodags.find? i = n.dodags.find? i)
    (hdue : m.alarms.deadline? (.advertise i) = n.alarms.deadline? (.advertise i)) :
    m.timer? i = n.timer? i := by
  rw [timer?, timer?, hfind, hdue]

/-! ## Steps that have nothing to do with advertising -/

/-- The trickle timers are as before, and so is what lets the node advertise. -/
structure SameAdverts (n m : Node ρ) : Prop where
  timers : ∀ i, m.timer? i = n.timer? i
  mayAdvertise : m.mayAdvertise = n.mayAdvertise
  /-- No advertisement was queued. -/
  outbox : ∃ new, m.outbox.toList = n.outbox.toList ++ new ∧ ∀ i l, Control.dio i l ∉ new

theorem sameAdverts_of_timers (htimers : ∀ i, m.timer? i = n.timer? i)
    (hmay : m.mayAdvertise = n.mayAdvertise) (hbox : m.outbox = n.outbox) : n.SameAdverts m where
  timers := htimers
  mayAdvertise := hmay
  outbox := ⟨[], by rw [hbox, List.append_nil], fun _ _ => List.not_mem_nil⟩

theorem SameAdverts.refl (n : Node ρ) : n.SameAdverts n :=
  sameAdverts_of_timers (fun _ => rfl) rfl rfl

theorem SameAdverts.trans (h : n.SameAdverts m) (h' : m.SameAdverts k) : n.SameAdverts k where
  timers i := (h'.timers i).trans (h.timers i)
  mayAdvertise := h'.mayAdvertise.trans h.mayAdvertise
  outbox := by
    obtain ⟨new, hnew, hdio⟩ := h.outbox
    obtain ⟨new', hnew', hdio'⟩ := h'.outbox
    refine ⟨new ++ new', by rw [hnew', hnew, List.append_assoc], ?_⟩
    intro i l hmem
    rcases List.mem_append.1 hmem with hmem | hmem
    · exact hdio i l hmem
    · exact hdio' i l hmem

theorem sameAdverts_of_eq (hd : m.dodags = n.dodags) (ha : m.alarms = n.alarms)
    (hmay : m.mayAdvertise = n.mayAdvertise) (hbox : m.outbox = n.outbox) : n.SameAdverts m :=
  sameAdverts_of_timers (fun _ => timer?_congr hd ha) hmay hbox

theorem sameAdverts_emit {e : TraceEvent} : n.SameAdverts (n.emit e) :=
  sameAdverts_of_eq rfl rfl rfl rfl

theorem sameAdverts_count {c : Counter} (h : n.count c = .ok m) : n.SameAdverts m := by
  obtain ⟨-, rfl⟩ := count_eq_ok h
  exact sameAdverts_of_eq rfl rfl rfl rfl

/-- A message that is no advertisement may be queued. -/
theorem sameAdverts_send {c : Control} (hc : ∀ i l, c ≠ .dio i l) (h : n.send c = .ok m) :
    n.SameAdverts m := by
  rcases send_eq_ok h with ⟨hroom, rfl⟩ | ⟨-, h⟩
  · refine ⟨fun _ => timer?_congr rfl rfl, rfl, [c], ?_, ?_⟩
    · rw [Mailbox.toList_offer, if_pos hroom]
    · intro i l hmem
      exact hc i l (List.mem_singleton.1 hmem).symm
  · exact sameAdverts_count h

theorem sameAdverts_sendProbe (h : n.sendProbe j a = .ok m) : n.SameAdverts m := by
  obtain ⟨k, hk, h⟩ := Checked.bind_eq_ok_iff.1 h
  exact (sameAdverts_count hk).trans (sameAdverts_emit.trans (sameAdverts_send (by simp) h))

/-- An alarm that is no trickle timer may be armed. -/
theorem sameAdverts_arm (hq : ∀ i, q ≠ .advertise i) : n.SameAdverts (n.arm q now after) := by
  refine sameAdverts_of_timers (fun i => timer?_of_ne rfl ?_) rfl rfl
  rw [arm, AlarmTable.deadline?_set, if_neg (hq i).symm]

/-- An alarm that is no trickle timer may fall silent. -/
theorem sameAdverts_stop (hq : ∀ i, q ≠ .advertise i) :
    n.SameAdverts { n with alarms := n.alarms.stop q } := by
  refine sameAdverts_of_timers (fun i => timer?_of_ne rfl ?_) rfl rfl
  rw [AlarmTable.deadline?_stop, if_neg (hq i).symm]

theorem sameAdverts_forgetAlarms : n.SameAdverts (n.forgetAlarms j a) := by
  refine sameAdverts_of_timers (fun i => timer?_of_ne rfl ?_) rfl rfl
  simp [forgetAlarms]

/-- The parents of an instance may change. -/
theorem sameAdverts_putDodag (hd : n.dodags.find? j = some d) (hbare : d'.bare = d.bare) :
    n.SameAdverts (n.putDodag j d') := by
  refine sameAdverts_of_timers (fun i => ?_) rfl rfl
  rw [timer?, timer?, putDodag, Table.find?_insert]
  split
  · rename_i hij
    rw [hij, hd, Option.map_some, Option.map_some, hbare]
  · rfl

theorem sameAdverts_putWatch {w : Watch} (hd : n.dodags.find? j = some d) :
    n.SameAdverts (n.putWatch j d a w) :=
  sameAdverts_putDodag hd rfl

/-! ## Requests about parents and reports -/

theorem sameAdverts_addParent : n.SameAdverts (addParent p n j a).state := by
  unfold addParent
  split
  · exact .refl n
  rename_i d hd
  split
  · exact .refl n
  split
  · exact .refl n
  · exact sameAdverts_putDodag hd rfl

theorem sameAdverts_removeParent : n.SameAdverts (n.removeParent j a).state := by
  unfold removeParent
  split
  · exact .refl n
  rename_i d hd
  split
  · have hput (b : Option Address) :
        n.SameAdverts (n.putDodag j { d with parents := d.parents.erase a, preferred := b }) :=
      sameAdverts_putDodag hd rfl
    exact (hput _).trans sameAdverts_forgetAlarms
  · exact .refl n

theorem sameAdverts_setPreferred {b : Option Address} :
    n.SameAdverts (n.setPreferred j b).state := by
  unfold setPreferred
  split
  · exact .refl n
  rename_i d hd
  split
  · exact .refl n
  split
  · exact .refl n
  split
  · exact sameAdverts_putDodag hd rfl
  · rename_i old _
    have hput : n.SameAdverts (n.putDodag j
        { d with preferred := b, parents := d.parents.adjust old fun _ => {} }) :=
      sameAdverts_putDodag hd rfl
    exact hput.trans sameAdverts_forgetAlarms

theorem sameAdverts_scheduleReception {delay listen jitter : Span} :
    n.SameAdverts (n.scheduleReception j a delay listen jitter now).state := by
  unfold scheduleReception
  split
  · exact .refl n
  rename_i d hd
  split
  · exact .refl n
  split
  · exact .refl n
  · rename_i w _
    have hput : n.SameAdverts (n.putWatch j d a { w with opens := now + delay, listen, jitter }) :=
      sameAdverts_putWatch hd
    exact (hput.trans sameAdverts_emit).trans (sameAdverts_arm (by simp))

theorem sameAdverts_dioReceived {l : Lookahead} {out : Outcome (Node ρ)}
    (h : dioReceived p n j a l now = .ok out) : n.SameAdverts out.state := by
  by_cases hp : (n.track j a).preferred ∧ (n.track j a).watch.isSome
  swap
  · rw [dioReceived_of_not_preferred hp h]
    exact .refl n
  obtain ⟨w, hw⟩ := Option.isSome_iff_exists.1 hp.2
  obtain ⟨d, hd, hpref, hfind⟩ := dodag_of_track hp.1 hw
  have hput (w' : Watch) : n.SameAdverts (n.putWatch j d a w') := sameAdverts_putWatch hd
  rw [dioReceived_eq hd hpref hfind] at h
  cases hr : w.reception l.listen (l.jitter + p.receptionSkew) now with
  | first =>
    simp only [hr] at h
    rw [← Except.ok.inj h, firstHeard]
    refine SameAdverts.trans ?_ sameAdverts_scheduleReception
    have hstop := (hput { w with stage := .awaitingWindow }).trans
      (sameAdverts_stop (q := .probe j a) (by simp))
    split
    · exact hstop.trans sameAdverts_emit
    · exact hstop
  | answer =>
    simp only [hr] at h
    rw [← Except.ok.inj h, answerHeard]
    exact ((hput _).trans sameAdverts_emit).trans (sameAdverts_arm (by simp))
  | late =>
    simp only [hr] at h
    obtain ⟨latency, -, h⟩ := Checked.bind_eq_ok_iff.1 h
    obtain ⟨k, hk, h⟩ := Checked.bind_eq_ok_iff.1 h
    rw [← Except.ok.inj h]
    have hcount := (hput _).trans (sameAdverts_count hk)
    have hsample : k.SameAdverts { k.emit (.latencyMeasured j latency) with
        samples := k.samples ++ [⟨j, a, latency⟩] } := sameAdverts_of_eq rfl rfl rfl rfl
    exact (hcount.trans hsample).trans sameAdverts_scheduleReception
  | repeated =>
    simp only [hr] at h
    rw [← Except.ok.inj h]
    exact sameAdverts_scheduleReception
  | early | overlooked =>
    simp only [hr] at h
    rw [← Except.ok.inj h]
    exact sameAdverts_emit

theorem sameAdverts_solicit {out : Outcome (Node ρ)} (h : n.solicit j = .ok out) :
    n.SameAdverts out.state := by
  unfold solicit at h
  split at h
  · rw [← Except.ok.inj h]
    exact .refl n
  rename_i d hd
  split at h
  · rw [← Except.ok.inj h]
    exact .refl n
  · rename_i b _
    have hput (f : Watch → Watch) :
        n.SameAdverts (n.putDodag j { d with parents := d.parents.adjust b f }) :=
      sameAdverts_putDodag hd rfl
    obtain ⟨k, hk, h⟩ := Checked.bind_eq_ok_iff.1 h
    rw [← Except.ok.inj h]
    exact (hput _).trans (sameAdverts_sendProbe hk)

theorem sameAdverts_restartUpkeep : n.SameAdverts (restartUpkeep p n now) := by
  have hsince :
      n.SameAdverts { n with sinceSolicit := p.solicitInterval.toNat - p.solicitDelay.toNat } :=
    sameAdverts_of_eq rfl rfl rfl rfl
  exact hsince.trans (sameAdverts_arm (by simp))

/-! ## The other alarms -/

theorem sameAdverts_upkeepRings (h : upkeepRings p n = .ok m) : n.SameAdverts m := by
  obtain ⟨k, l, hk, hl, rfl⟩ := upkeepRings_eq_ok h
  obtain ⟨upkeep, -, -, rfl⟩ := ageRoutes_eq_ok hk
  have hsolicited : n.SameAdverts l := by
    rcases solicitDetached_eq_ok hl with ⟨-, k, hk, hsend⟩ | ⟨-, rfl⟩
    · have hticked : n.SameAdverts { n with upkeep, sinceSolicit := 0 } :=
        sameAdverts_of_eq rfl rfl rfl rfl
      have hcount := hticked.trans (sameAdverts_count hk)
      exact hcount.trans (sameAdverts_emit.trans (sameAdverts_send (by simp) hsend))
    · exact sameAdverts_of_eq rfl rfl rfl rfl
  have hrearm : l.SameAdverts { l with alarms := l.alarms.rearm .upkeep } := by
    refine sameAdverts_of_timers (fun i => timer?_of_ne rfl ?_) rfl rfl
    rw [AlarmTable.deadline?_rearm, if_neg (by simp)]
  exact hsolicited.trans hrearm

theorem sameAdverts_reportRings (h : reportRings p n j now = .ok m) : n.SameAdverts m := by
  have hstop (k : Node ρ) : k.SameAdverts { k with alarms := k.alarms.stop (.report j) } :=
    sameAdverts_stop (by simp)
  rcases reportRings_eq_ok h with ⟨-, -, k, hk, rfl⟩ | ⟨-, ⟨-, rfl⟩ | ⟨d, -, h⟩⟩
  · exact ((sameAdverts_count hk).trans sameAdverts_emit).trans (sameAdverts_arm (by simp))
  · exact .refl m
  · rcases h with ⟨b, k, l, -, hk, hl, rfl⟩ | ⟨-, rfl⟩
    · have hsent := sameAdverts_emit.trans (sameAdverts_send (by simp) hl)
      exact ((sameAdverts_count hk).trans hsent).trans (hstop l)
    · exact sameAdverts_emit.trans (hstop _)

section Draws

variable [RandomSource ρ]

theorem sameAdverts_scheduleDao {out : Outcome (Node ρ)} (h : scheduleDao p n j now = .ok out) :
    n.SameAdverts out.state := by
  unfold scheduleDao at h
  split at h
  · rw [← Except.ok.inj h]
    exact .refl n
  split at h
  · rw [← Except.ok.inj h]
    exact sameAdverts_emit
  · obtain ⟨ticks, -, h⟩ := Checked.bind_eq_ok_iff.1 h
    rw [← Except.ok.inj h]
    refine SameAdverts.trans ?_ sameAdverts_emit
    have hsource (source : ρ) : n.SameAdverts { n with source } := sameAdverts_of_eq rfl rfl rfl rfl
    exact (hsource _).trans (sameAdverts_arm (by simp))

theorem sameAdverts_armProbe : n.SameAdverts (armProbe p n j a now) := by
  obtain ⟨source, after, -, heq⟩ := armProbe_eq p n j a now
  have hsource : n.SameAdverts { n with source } := sameAdverts_of_eq rfl rfl rfl rfl
  rw [heq]
  exact hsource.trans (sameAdverts_arm (by simp))

theorem sameAdverts_watchRings (h : watchRings p n j a now = .ok m) : n.SameAdverts m := by
  rcases watchRings_eq_ok h with ⟨rfl, -⟩ | ⟨d, w, k, hd, -, -, hk, rfl⟩
  · exact .refl m
  · have hcount := (sameAdverts_putWatch hd).trans (sameAdverts_count hk)
    exact (hcount.trans sameAdverts_emit).trans sameAdverts_armProbe

theorem sameAdverts_probeRings (h : probeRings p n j a now = .ok m) : n.SameAdverts m := by
  rcases probeRings_eq_ok h with ⟨rfl, -⟩ | ⟨-, -, k, hk, rfl⟩
  · exact .refl m
  · exact (sameAdverts_sendProbe hk).trans sameAdverts_armProbe

end Draws

end Node

end TrickleNet
