import Mathlib
import TrickleNet.Proofs.Loop
import TrickleNet.Proofs.Orderly
import TrickleNet.Proofs.Windows
/-!
# What an alarm does when it rings

`Node.Rang p n m e q` says how an alarm `q` that rings at its deadline `e` takes an orderly node
from `n` to `m`.  Each kind of alarm either falls silent or is set for another instant that counts
from `e`, and the only other alarm that one of them sets is that of a probe.  `rang_of_ring` is the
inversion lemma.  It leaves no room for an alarm that nobody answers: what a handler asks for before
it acts is among the premises of each constructor.

With it every event of a run keeps the node in order (`Reachable.orderly`).
-/

namespace TrickleNet.Node

variable {ρ : Type} {p : Platform} {n m k : Node ρ} {i : InstanceId} {a : Address} {d d' : Dodag}
  {q : Purpose} {now e : Instant} {after : Span}

/-- What an alarm of an orderly node does when it rings at its deadline. -/
inductive Rang (p : Platform) (n m : Node ρ) (e : Instant) : Purpose → Prop
  /-- The ticker is set for its next tick. -/
  | ticked : m.dodags = n.dodags → m.alarms = n.alarms.set .upkeep e p.upkeepInterval →
      Rang p n m e .upkeep
  /-- The trickle timer takes a turn. -/
  | turned {i : InstanceId} {d d' : Dodag} {after : Span} :
      n.dodags.find? i = some d → Turned p i n m d d' e after → Rang p n m e (.advertise i)
  /-- A report waits for the link-local address. -/
  | delayed {i : InstanceId} :
      n.dodags.contains i = true → m.dodags = n.dodags →
        m.alarms = n.alarms.set (.report i) e p.postponeDelay → Rang p n m e (.report i)
  /-- A report is sent, or has nowhere to go. -/
  | reported {i : InstanceId} :
      n.dodags.contains i = true → m.dodags = n.dodags → m.alarms = n.alarms.stop (.report i) →
        Rang p n m e (.report i)
  /-- The preferred parent has missed its window and is probed. -/
  | missed {i : InstanceId} {a : Address} {d : Dodag} {w : Watch} {after : Span} :
      n.dodags.find? i = some d → d.preferred = some a → d.parents.find? a = some w →
        1 ≤ after.ticks → m.dodags = (n.putWatch i d a { w with stage := .silent }).dodags →
          m.alarms = (n.alarms.stop (.watch i a)).set (.probe i a) e after →
            Rang p n m e (.watch i a)
  /-- The preferred parent is still silent and is probed again. -/
  | probed {i : InstanceId} {a : Address} {d : Dodag} {w : Watch} {after : Span} :
      n.dodags.find? i = some d → d.preferred = some a → d.parents.find? a = some w →
        w.stage = .silent → 1 ≤ after.ticks → m.dodags = n.dodags →
          m.alarms = n.alarms.set (.probe i a) e after → Rang p n m e (.probe i a)

/-- A turn of the trickle timer sets its alarm for another instant. -/
theorem Turned.alarms_eq (h : Turned p i n m d d' e after) :
    m.alarms = n.alarms.set (.advertise i) e after := by
  rw [h.alarms, AlarmTable.set_stop]

theorem Turned.dodags_eq (h : Turned p i n m d d' e after) : m.dodags = n.dodags.insert i d' := by
  refine Table.ext_find? fun j => ?_
  rw [h.dodags, Table.find?_insert]

/-- An alarm that rings joins or leaves no instance and chooses no parent. -/
theorem Rang.keeps (h : Rang p n m e q) : n.Keeps p m := by
  cases h with
  | ticked hdodags halarms =>
    have harm : n.Keeps p (n.arm .upkeep e p.upkeepInterval) := keeps_arm trivial fun _ => rfl
    exact harm.congr hdodags halarms
  | @turned i d d' after hd ht =>
    have hown : n.Owns (.advertise i) := Table.contains_of_find? hd
    have harm : n.Keeps p (n.arm (.advertise i) e after) := keeps_arm hown (by simp)
    have hkeeps : d.Keeps p d' := ⟨ht.preferred, by rw [ht.parents], fun _ => ht.paced⟩
    exact (harm.trans (keeps_putDodag hd hkeeps)).congr ht.dodags_eq ht.alarms_eq
  | @delayed i hi hdodags halarms =>
    have hown : n.Owns (.report i) := hi
    have harm : n.Keeps p (n.arm (.report i) e p.postponeDelay) := keeps_arm hown (by simp)
    exact harm.congr hdodags halarms
  | @reported i hi hdodags halarms =>
    have hstop : n.Keeps p { n with alarms := n.alarms.stop (.report i) } := keeps_stop (by simp)
    exact hstop.congr hdodags halarms
  | @missed i a d w after hd hpref hw _ hdodags halarms =>
    have hown : n.Owns (.probe i a) := (preferred?_of_find? hd).trans hpref
    have hstop : n.Keeps p { n with alarms := n.alarms.stop (.watch i a) } := keeps_stop (by simp)
    have harm : Keeps p { n with alarms := n.alarms.stop (.watch i a) }
        { n with alarms := (n.alarms.stop (.watch i a)).set (.probe i a) e after } :=
      keeps_arm (hstop.owns_iff.2 hown) (by simp)
    exact ((hstop.trans harm).trans (keeps_putWatch hd hw)).congr hdodags halarms
  | @probed i a d w after hd hpref _ _ _ hdodags halarms =>
    have hown : n.Owns (.probe i a) := (preferred?_of_find? hd).trans hpref
    have harm : n.Keeps p (n.arm (.probe i a) e after) := keeps_arm hown (by simp)
    exact harm.congr hdodags halarms

/-! ## Every alarm that rings is answered -/

variable [RandomSource ρ]

omit [RandomSource ρ] in
/-- A tick leaves the instances alone and sets the ticker for the next tick. -/
theorem rang_upkeep (hn : n.Orderly p) (hd : n.alarms.deadline? .upkeep = some e)
    (h : upkeepRings p { n with alarms := n.alarms.stop .upkeep } = .ok m) :
    Rang p n m e .upkeep := by
  obtain ⟨k, l, hk, hl, rfl⟩ := upkeepRings_eq_ok h
  obtain ⟨upkeep, -, -, rfl⟩ := ageRoutes_eq_ok hk
  have hsame : l.dodags = n.dodags ∧ l.alarms = n.alarms.stop .upkeep := by
    rcases solicitDetached_eq_ok hl with ⟨-, k, hk, hsend⟩ | ⟨-, rfl⟩
    · obtain ⟨-, rfl⟩ := count_eq_ok hk
      obtain ⟨outbox, counts, rfl⟩ := send_unchanged hsend
      exact ⟨rfl, rfl⟩
    · exact ⟨rfl, rfl⟩
  obtain ⟨b, hb⟩ := AlarmTable.holds_iff.1 (AlarmTable.holds_of_deadline? hd)
  have hdue : b.deadline = e := by
    simp only [AlarmTable.deadline?, hb] at hd
    split at hd
    · exact Option.some.inj hd
    · cases hd
  have hslot : (n.alarms.stop .upkeep).slots.find? .upkeep = some { b with armed := false } := by
    simp [AlarmTable.stop, hb]
  refine .ticked hsame.1 ?_
  show l.alarms.rearm .upkeep = _
  rw [hsame.2, AlarmTable.rearm_eq_set hslot, AlarmTable.set_stop]
  rw [show Alarm.deadline { b with armed := false } = e from hdue, ← hn.ticker b hb]

omit [RandomSource ρ] in
theorem rang_report (hi : n.dodags.contains i = true)
    (h : reportRings p { n with alarms := n.alarms.stop (.report i) } i e = .ok m) :
    Rang p n m e (.report i) := by
  rcases reportRings_eq_ok h with ⟨-, -, k, hk, rfl⟩ | ⟨-, ⟨hnone, rfl⟩ | ⟨d, -, h⟩⟩
  · obtain ⟨-, rfl⟩ := count_eq_ok hk
    exact .delayed hi rfl AlarmTable.set_stop
  · exact .reported hi rfl rfl
  · rcases h with ⟨a, k, l, -, hk, hl, rfl⟩ | ⟨-, rfl⟩
    · obtain ⟨-, rfl⟩ := count_eq_ok hk
      obtain ⟨outbox, counts, rfl⟩ := send_unchanged hl
      exact .reported hi rfl AlarmTable.stop_stop
    · exact .reported hi rfl AlarmTable.stop_stop

theorem rang_watch (hs : (n.track i a).Sound) (hpref : n.preferred? i = some a)
    (h : watchRings p { n with alarms := n.alarms.stop (.watch i a) } i a e = .ok m) :
    Rang p n m e (.watch i a) := by
  obtain ⟨w', hw'⟩ := hs.registered hpref
  rcases watchRings_eq_ok h with ⟨-, hnot⟩ | ⟨d, w, k, hd, hp, hw, hk, rfl⟩
  · rw [track_stop] at hnot
    exact absurd ⟨hpref, by simp [hw']⟩ hnot
  · obtain ⟨-, rfl⟩ := count_eq_ok hk
    obtain ⟨source, after, hafter, heq⟩ := armProbe_eq p
      (Node.emit { (Node.putWatch { n with alarms := n.alarms.stop (.watch i a) } i d a
        { w with stage := .silent }) with counts := _ } (.windowMissed i a)) i a e
    refine .missed hd hp hw hafter ?_ ?_
    · rw [heq]
      rfl
    · rw [heq]
      rfl

theorem rang_probe (hs : (n.track i a).Sound) (hpref : n.preferred? i = some a)
    (hd : n.alarms.deadline? (.probe i a) = some e)
    (h : probeRings p { n with alarms := n.alarms.stop (.probe i a) } i a e = .ok m) :
    Rang p n m e (.probe i a) := by
  obtain ⟨w, hw⟩ := hs.registered hpref
  have hsilent : w.stage = .silent := by
    rw [← hs.probing_iff hpref w hw]
    simp [track, hd]
  obtain ⟨d, hfind, hp, hw⟩ := dodag_of_track (n := n) hpref hw
  rcases probeRings_eq_ok h with ⟨-, hnot⟩ | ⟨-, -, k, hk, rfl⟩
  · rw [track_stop] at hnot
    refine absurd ⟨hpref, w, ?_, hsilent⟩ hnot
    simpa [track_of_find? hfind] using hw
  · obtain ⟨outbox, counts, trace, rfl⟩ := sendProbe_unchanged hk
    obtain ⟨source, after, hafter, heq⟩ := armProbe_eq p
      { n with alarms := n.alarms.stop (.probe i a), outbox, counts, trace } i a e
    refine .probed hfind hp hw hsilent hafter ?_ ?_
    · rw [heq]
      rfl
    · rw [heq]
      exact AlarmTable.set_stop

/-- Every alarm of an orderly node that rings is answered. -/
theorem rang_of_ring {r : Ring} {alarms : AlarmTable} (hs : n.SoundTracks) (hn : n.Orderly p)
    (hring : n.alarms.ring? now = some (r, alarms)) (h : handleRing p { n with alarms } r = .ok m) :
    Rang p n m r.deadline r.purpose := by
  obtain ⟨hd, -, rfl, -⟩ := AlarmTable.ring?_eq_some hring
  have hown := hn.owned _ (AlarmTable.holds_of_deadline? hd)
  obtain ⟨q, e⟩ := r
  cases q with
  | upkeep => exact rang_upkeep hn hd h
  | advertise i =>
    obtain ⟨d, hfind⟩ := Table.contains_iff.1 hown
    obtain ⟨d', after, ht⟩ := turned_of_advertiseRings hfind (hn.paced i d hfind) h
    exact .turned hfind ht
  | report i => exact rang_report hown h
  | watch i a => exact rang_watch (hs i a) hown h
  | probe i a => exact rang_probe (hs i a) hown hd h

/-- An alarm that rings keeps a node in order and its tracks sound. -/
theorem ring_orderly {r : Ring} {alarms : AlarmTable} (hn : n.SoundTracks ∧ n.Orderly p)
    (hring : n.alarms.ring? now = some (r, alarms))
    (hm : handleRing p { n with alarms } r = .ok m) :
    Rang p n m r.deadline r.purpose ∧ m.SoundTracks ∧ m.Orderly p := by
  have hrang := rang_of_ring hn.1 hn.2 hring hm
  have hvalid : Moment.Valid p ⟨n, .ring r, m⟩ := .ring hring hm
  exact ⟨hrang, hvalid.soundTracks hn.1, hrang.keeps.orderly hn.2⟩

/-! ## Runs -/

theorem Orderly.perform {o : Operation} {out : Outcome (Node ρ)} (hn : n.Orderly p)
    (ho : o ≠ .handleTimer) (h : n.perform p o now = .ok out) : out.state.Orderly p := by
  cases o with
  | join i params => exact hn.join h
  | leave i =>
    rw [← Except.ok.inj h]
    exact hn.leave
  | addParent i a =>
    rw [← Except.ok.inj h]
    exact hn.addParent
  | removeParent i a =>
    rw [← Except.ok.inj h]
    exact hn.removeParent
  | scheduleReception i a delay listen jitter =>
    rw [← Except.ok.inj h]
    exact keeps_scheduleReception.orderly hn
  | handleTimer => exact absurd rfl ho
  | command c =>
    cases c with
    | resetDio i force => exact hn.resetDio h
    | scheduleDao i => exact (keeps_scheduleDao h).orderly hn
    | dioConsistent i =>
      rw [← Except.ok.inj h]
      exact keeps_dioConsistent.orderly hn
    | dioReceived i a l => exact (keeps_dioReceived h).orderly hn
    | setPreferred i b =>
      rw [← Except.ok.inj h]
      exact hn.setPreferred
    | solicit i => exact (keeps_solicit h).orderly hn
    | restartUpkeep =>
      rw [← Except.ok.inj h]
      exact keeps_restartUpkeep.orderly hn

theorem Moment.Valid.orderly {s : Moment ρ} (h : s.Valid p) (hs : s.before.SoundTracks)
    (hn : s.before.Orderly p) : s.after.Orderly p := by
  cases h with
  | request ho hout => exact hn.perform ho hout
  | ring hring hm => exact (rang_of_ring hs hn hring hm).keeps.orderly hn
  | settled => exact hn

theorem Trail.orderly {ms : List (Moment ρ)} (h : Trail p n ms k) (hs : n.SoundTracks)
    (hn : n.Orderly p) : k.Orderly p := by
  have hinv : k.SoundTracks ∧ k.Orderly p := by
    refine h.invariant (I := fun n => n.SoundTracks ∧ n.Orderly p) ?_ ?_ ⟨hs, hn⟩
    · rintro n m hsame ⟨hs, hn⟩
      exact ⟨hsame.soundTracks hs, (keeps_of_eq hsame.dodags hsame.alarms).orderly hn⟩
    · rintro s - hvalid ⟨hs, hn⟩
      exact ⟨hvalid.soundTracks hs, hvalid.orderly hs hn⟩
  exact hinv.2

/-- Every reachable node is in order. -/
theorem Reachable.orderly (h : Reachable p n) : n.Orderly p := by
  obtain ⟨source, clock, ready, ms, hrun⟩ := h
  exact hrun.trail.orderly (soundTracks_new source clock ready) (orderly_new p source clock ready)

end TrickleNet.Node
