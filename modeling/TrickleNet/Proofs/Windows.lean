import Mathlib
import TrickleNet.Proofs.Tracking
/-!
# The windows of the preferred parent

The record of a parent and its two alarms never disagree: `records_agree_with_alarms` says so of all
reachable nodes, and a little more of those runs in which windows are predicted from advertisements
alone, and never by a request of their own (`Moment.Indirect`).  In such a run a window that was
missed is not followed by another one before the parent was heard again.

Soundness of tracks (`Track.Sound`) is kept by every event, and so is `Track.Tight` by the events of
indirect runs.
-/

namespace TrickleNet

open Node

/-- An alarm for the end of a window belongs to a window that is predicted. -/
def Track.Tight (t : Track) : Prop :=
  t.closing.isSome → t.preferred ∧ ∃ w ∈ t.watch, w.tracking = true

/-- Whether the event is a request that predicts a window. -/
def Node.Event.predicts : Event → Bool
  | .request (.scheduleReception _ _ _ _ _) _ => true
  | _ => false

namespace Track.Step

variable {p : Platform} {i : InstanceId} {a : Address} {e : Event} {t t' : Track}

theorem tight (h : Track.Step p i a e t t') (he : e.predicts = false)
    (ht : t.Tight) : t'.Tight := by
  cases h with
  | other => exact ht
  | left => simp [Track.Tight, Track.gone]
  | removed => simp [Track.Tight, Track.gone]
  | dropped => simp [Track.Tight, Track.gone]
  | missed => simp [Track.Tight]
  | added hp =>
    intro hclosing
    exact (hp (ht hclosing).1).elim
  | chosen hp =>
    intro hclosing
    exact (hp (ht hclosing).1).elim
  | scheduled => cases he
  | solicited hp =>
    intro hclosing
    obtain ⟨-, w, hw, htracking⟩ := ht hclosing
    refine ⟨hp, w.ask, by simpa using ⟨w, hw, rfl⟩, ?_⟩
    unfold Watch.ask
    split
    · rfl
    · exact htracking
  | heard hp hw => exact fun _ => ⟨hp, _, rfl, Watch.tracking_hear _ _ _ _ _⟩
  | probed => exact ht

/-- Only an advertisement of the preferred parent sets the alarm of its window. -/
theorem closing_eq_none (h : Track.Step p i a e t t') (he : e.predicts = false)
    (hdio : ¬(t.preferred ∧ e.IsDio i a)) (ht : t.closing = none) : t'.closing = none := by
  cases h with
  | other | added | chosen | solicited | probed => exact ht
  | left | removed | dropped | missed => rfl
  | scheduled => cases he
  | heard hp => exact (hdio ⟨hp, _, _, rfl⟩).elim

/-- The alarm of a window is spent when it has rung. -/
theorem closing_of_ring {d : Instant} (h : Track.Step p i a (.ring ⟨.watch i a, d⟩) t t') :
    t'.closing = none := by
  cases h with
  | other halarm => exact (halarm ⟨d, .inl rfl⟩).elim
  | missed => rfl

end Track.Step

namespace Node

variable {ρ : Type} [RandomSource ρ] {p : Platform} {n n₀ k : Node ρ} {i : InstanceId} {a : Address}
  {d : Dodag} {w : Watch} {ms pre mid post : List (Moment ρ)} {s s' : Moment ρ}

/-! ## All runs -/

/-- All tracks of the node are sound. -/
def SoundTracks (n : Node ρ) : Prop := ∀ i a, (n.track i a).Sound

omit [RandomSource ρ] in
theorem track_new (source : ρ) (clock : Instant) (ready : Bool) :
    (Node.new source clock ready).track i a = .gone := by
  simp [track, preferred?, watch?, new, Track.gone]

omit [RandomSource ρ] in
theorem soundTracks_new (source : ρ) (clock : Instant) (ready : Bool) :
    (Node.new source clock ready).SoundTracks := by
  intro i a
  rw [track_new]
  exact Track.sound_gone

omit [RandomSource ρ] in
theorem SameCore.soundTracks (h : n.SameCore k) (hn : n.SoundTracks) : k.SoundTracks := by
  intro i a
  rw [h.track]
  exact hn i a

theorem Moment.Valid.soundTracks (h : s.Valid p) (hs : s.before.SoundTracks) :
    s.after.SoundTracks :=
  fun i a => (h.track_step hs i a).sound (hs i a)

theorem Trail.soundTracks (h : Trail p n ms k) (hn : n.SoundTracks) : k.SoundTracks :=
  h.invariant (fun _ _ hsame => hsame.soundTracks) (fun _ _ hs => hs.soundTracks) hn

theorem Reachable.soundTracks (h : Reachable p n) : n.SoundTracks := by
  obtain ⟨source, clock, ready, ms, hrun⟩ := h
  exact hrun.trail.soundTracks (soundTracks_new source clock ready)

/-! ## Runs that predict windows from advertisements alone -/

/-- The moment is not a request that predicts a window. -/
def Moment.Indirect (s : Moment ρ) : Prop := s.event.predicts = false

instance (s : Moment ρ) : Decidable s.Indirect := inferInstanceAs (Decidable (_ = _))

/-- The preferred parent is heard. -/
def Moment.Hears (s : Moment ρ) (i : InstanceId) (a : Address) : Prop :=
  s.before.preferred? i = some a ∧ s.event.IsDio i a

/-- A window of the parent closes in silence, and this is counted. -/
def Moment.Misses (s : Moment ρ) (i : InstanceId) (a : Address) : Prop :=
  (∃ d, s.event = .ring ⟨.watch i a, d⟩) ∧
    s.after.counts.windowsMissed = s.before.counts.windowsMissed + 1

theorem Trail.tight (h : Trail p n ms k) (hms : ∀ s ∈ ms, s.Indirect) (hn : n.SoundTracks)
    (ht : ∀ i a, (n.track i a).Tight) : ∀ i a, (k.track i a).Tight := by
  have hinv : k.SoundTracks ∧ ∀ i a, (k.track i a).Tight := by
    refine h.invariant (I := fun n => n.SoundTracks ∧ ∀ i a, (n.track i a).Tight) ?_ ?_ ⟨hn, ht⟩
    · rintro n m hsame ⟨hs, ht⟩
      refine ⟨hsame.soundTracks hs, ?_⟩
      intro i a
      rw [hsame.track]
      exact ht i a
    · rintro s hmem hvalid ⟨hs, ht⟩
      exact ⟨hvalid.soundTracks hs,
        fun i a => (hvalid.track_step hs i a).tight (hms s hmem) (ht i a)⟩
  exact hinv.2

/-- While the preferred parent is not heard, no alarm is set for its window. -/
theorem Trail.closing_eq_none (h : Trail p n ms k) (hms : ∀ s ∈ ms, s.Indirect)
    (hheard : ∀ s ∈ ms, ¬s.Hears i a) (hn : n.SoundTracks) (ht : (n.track i a).closing = none) :
    (k.track i a).closing = none := by
  have hinv : k.SoundTracks ∧ (k.track i a).closing = none := by
    refine h.invariant (I := fun n => n.SoundTracks ∧ (n.track i a).closing = none) ?_ ?_ ⟨hn, ht⟩
    · rintro n m hsame ⟨hs, ht⟩
      rw [hsame.track]
      exact ⟨hsame.soundTracks hs, ht⟩
    · rintro s hmem hvalid ⟨hs, ht⟩
      refine ⟨hvalid.soundTracks hs, ?_⟩
      exact (hvalid.track_step hs i a).closing_eq_none (hms s hmem) (hheard s hmem) ht
  exact hinv.2

/-- Between two windows that a parent misses it was heard. -/
theorem Trail.heard_between_misses (h : Trail p n (pre ++ s :: mid ++ s' :: post) k)
    (hms : ∀ m ∈ mid, m.Indirect) (hn : n.SoundTracks) (hmiss : s.Misses i a)
    (hmiss' : s'.Misses i a) : ∃ m ∈ mid, m.Hears i a := by
  obtain ⟨k', hbetween, hlast⟩ := h.split
  obtain ⟨k, hpre, hfirst⟩ := hbetween.split
  obtain _ | ⟨hsame, hvalid, hmid⟩ := hfirst
  obtain _ | ⟨hsame', hvalid', -⟩ := hlast
  have hsound : s.before.SoundTracks := hsame.soundTracks (hpre.soundTracks hn)
  have hspent : (s.after.track i a).closing = none := by
    obtain ⟨⟨d, hd⟩, -⟩ := hmiss
    have hstep := hvalid.track_step hsound i a
    rw [hd] at hstep
    exact hstep.closing_of_ring
  have hset : (s'.before.track i a).closing.isSome := by
    obtain ⟨⟨d, hd⟩, -⟩ := hmiss'
    cases hvalid' with
    | ring hring _ =>
      obtain ⟨hdeadline, -⟩ := AlarmTable.ring?_eq_some hring
      cases hd
      simp only [track]
      rw [hdeadline]
      rfl
    | request | settled => cases hd
  by_contra hnone
  have hheard : ∀ m ∈ mid, ¬m.Hears i a := fun m hm hhears => hnone ⟨m, hm, hhears⟩
  have hclosing := hmid.closing_eq_none hms hheard (hvalid.soundTracks hsound) hspent
  rw [hsame'.track, hclosing] at hset
  cases hset

/-- The record of a candidate parent and its alarms agree in every reachable node: a parent that is
not preferred has the default record and no alarms, the preferred one is probed exactly while it is
silent, and a predicted window has its alarm.  If no request predicts windows, then only predicted
windows have one, and between two windows that a parent misses it was heard while preferred. -/
theorem records_agree_with_alarms (p : Platform) :
    (∀ n : Node ρ, Reachable p n → ∀ i d a w,
      n.dodags.find? i = some d → d.parents.find? a = some w →
        (d.preferred ≠ some a → w = {} ∧ n.alarms.isArmed (.watch i a) = false ∧
          n.alarms.isArmed (.probe i a) = false) ∧
        (d.preferred = some a → (n.alarms.isArmed (.probe i a) = true ↔ w.stage = .silent)) ∧
        (d.preferred = some a → w.tracking = true → n.alarms.isArmed (.watch i a) = true)) ∧
    ∀ (source : ρ) (clock : Instant) (ready : Bool) (ms : List (Moment ρ)) (n : Node ρ),
      Run p (.new source clock ready) ms n → (∀ s ∈ ms, s.Indirect) →
        (∀ i d a w, n.dodags.find? i = some d → d.parents.find? a = some w →
          (n.alarms.isArmed (.watch i a) = true ↔ d.preferred = some a ∧ w.tracking = true)) ∧
        ∀ i a pre s mid s' post, ms = pre ++ s :: mid ++ s' :: post →
          s.Misses i a → s'.Misses i a → ∃ m ∈ mid, m.Hears i a := by
  refine ⟨fun n hn i d a w hd hw => ?_, fun source clock ready ms n hrun hms => ⟨?_, ?_⟩⟩
  · have hs := hn.soundTracks i a
    rw [track_of_find? hd] at hs
    refine ⟨fun hp => ?_, fun hp => hs.probing_iff hp w hw,
      fun hp => hs.closing_of_tracking hp w hw⟩
    obtain ⟨hclosing, hprobing, hdefault⟩ := hs.idle hp
    have hwatch : n.alarms.deadline? (.watch i a) = none := hclosing
    have hprobe : n.alarms.deadline? (.probe i a) = none := hprobing
    simp [hdefault w hw, AlarmTable.isArmed, hwatch, hprobe]
  · intro i d a w hd hw
    have hsound := soundTracks_new source clock ready
    have hs := hrun.trail.soundTracks hsound i a
    have ht :=
      hrun.trail.tight hms hsound (fun i a => by simp [track_new, Track.Tight, Track.gone]) i a
    rw [track_of_find? hd] at hs ht
    constructor
    · intro harmed
      obtain ⟨hp, w', hw', htracking⟩ := ht harmed
      obtain rfl := Option.some.inj (hw.symm.trans hw')
      exact ⟨hp, htracking⟩
    · rintro ⟨hp, htracking⟩
      exact hs.closing_of_tracking hp w hw htracking
  · rintro i a pre s mid s' post rfl hmiss hmiss'
    have hmid : ∀ m ∈ mid, m.Indirect := fun m hm => hms m (by simp [hm])
    exact hrun.trail.heard_between_misses hmid (soundTracks_new source clock ready) hmiss hmiss'

/-- Requests to a node that prefers parent 2 over parent 3, and hears it at boot and again after
400 ms, each time with empty phases ahead. -/
def twoMisses : List (Operation × Instant) :=
  [(.join 1 { minExponent := 30 }, .zero), (.addParent 1 (.linkLocal 2), .zero),
    (.addParent 1 (.linkLocal 3), .zero), (.command (.setPreferred 1 (some (.linkLocal 2))), .zero),
    (.command (.dioReceived 1 (.linkLocal 2) {}), .zero), (.handleTimer, .ofTicks 400),
    (.command (.dioReceived 1 (.linkLocal 2) {}), .ofTicks 400), (.handleTimer, .ofTicks 800)]

/-- The preferred parent misses two windows of 400 ms and was heard between them; now it is silent
and to be probed, and the other parent is not watched. -/
theorem records_agree_after_two_misses :
    ∃ (pre mid post : List (Moment Generator)) (s s' : Moment Generator) (n : Node Generator)
      (d : Dodag) (w w' : Watch),
      record .millis twoMisses (.new (.fixed 0) .zero true) =
        .ok (pre ++ s :: mid ++ s' :: post, n) ∧
      n.dodags.find? 1 = some d ∧ d.parents.find? (.linkLocal 2) = some w ∧
      d.parents.find? (.linkLocal 3) = some w' ∧ w.stage = .silent ∧
      s.Misses 1 (.linkLocal 2) ∧ s'.Misses 1 (.linkLocal 2) ∧
      n.alarms.isArmed (.probe 1 (.linkLocal 2)) = true ∧
      n.alarms.isArmed (.watch 1 (.linkLocal 2)) = false ∧
      (w' = {} ∧ n.alarms.isArmed (.watch 1 (.linkLocal 3)) = false ∧
        n.alarms.isArmed (.probe 1 (.linkLocal 3)) = false) ∧
      ∃ m ∈ mid, m.Hears 1 (.linkLocal 2) := by
  have hrun : ∀ ms (n : Node Generator),
      record .millis twoMisses (.new (.fixed 0) .zero true) = .ok (ms, n) →
        Run .millis (.new (.fixed 0) .zero true) ms n := fun ms n h => Run.start.record h
  obtain ⟨hall, hindirect⟩ := records_agree_with_alarms (ρ := Generator) .millis
  refine ⟨[_, _, _, _, _], [_, _], [_], _, _, _, _, _, _, rfl, rfl, rfl, rfl, rfl, ⟨⟨_, rfl⟩, rfl⟩,
    ⟨⟨_, rfl⟩, rfl⟩, ?_, ?_, ?_, ?_⟩
  · exact ((hall _ ⟨_, _, _, _, hrun _ _ rfl⟩ 1 _ _ _ rfl rfl).2.1 rfl).2 rfl
  · have hiff := (hindirect _ _ _ _ _ (hrun _ _ rfl) (by decide)).1 1 _ (.linkLocal 2) _ rfl rfl
    rw [← Bool.not_eq_true, hiff]
    exact fun h => Bool.false_ne_true h.2
  · exact (hall _ ⟨_, _, _, _, hrun _ _ rfl⟩ 1 _ _ _ rfl rfl).1 (by decide)
  · refine (hindirect _ _ _ _ _ (hrun _ _ rfl) (by decide)).2 1 _ [_, _, _, _, _] _ [_, _] _ [_] rfl
      ?_ ?_
    · exact ⟨⟨_, rfl⟩, rfl⟩
    · exact ⟨⟨_, rfl⟩, rfl⟩

end Node

end TrickleNet
