import Mathlib
import TrickleNet.Proofs.Track
/-!
# What each event does to a track

`Track.Step p i a e t t'` says that the event `e` may take the track of neighbour `a` in instance
`i` from `t` to `t'`.  Each constructor is one way in which a track changes; all other events leave
it alone, and `Track.Step.other` says which these are.  `Node.Moment.Valid.track_step` is the
inversion lemma: whatever happens to a node, each of its tracks takes such a step.

The two alarms of a track ring only while it is sound, which is where the theorem needs
`Track.Sound`.
-/

namespace TrickleNet

open Node

/-! ## Sound tracks -/

/-- The record of a neighbour and its two alarms agree. -/
structure Track.Sound (t : Track) : Prop where
  /-- Neighbours that are not preferred are not watched. -/
  idle : ¬t.preferred → t.closing = none ∧ t.probing = none ∧ ∀ w ∈ t.watch, w = {}
  /-- The preferred parent is a candidate parent. -/
  registered : t.preferred → ∃ w, t.watch = some w
  /-- The preferred parent is probed as long as it is silent. -/
  probing_iff : t.preferred → ∀ w ∈ t.watch, t.probing.isSome ↔ w.stage = .silent
  /-- A predicted window has an alarm at its end. -/
  closing_of_tracking : t.preferred → ∀ w ∈ t.watch, w.tracking = true → t.closing.isSome

theorem Track.sound_gone : Track.gone.Sound where
  idle _ := by simp [Track.gone]
  registered h := h.elim
  probing_iff h := h.elim
  closing_of_tracking h := h.elim

/-! ## Steps of a track -/

/-- The event is an advertisement of this neighbour for this instance. -/
def Node.Event.IsDio (e : Event) (i : InstanceId) (a : Address) : Prop :=
  ∃ l now, e = .request (.command (.dioReceived i a l)) now

/-- The event is an alarm that watches or probes this neighbour. -/
def Node.Event.IsAlarm (e : Event) (i : InstanceId) (a : Address) : Prop :=
  ∃ d, e = .ring ⟨.watch i a, d⟩ ∨ e = .ring ⟨.probe i a, d⟩

/-- What an event can do to the track of a neighbour. -/
inductive Track.Step (p : Platform) (i : InstanceId) (a : Address) : Event → Track → Track → Prop
  /-- Nothing, if it is neither an alarm of the neighbour nor an advertisement of it while it is
  preferred. -/
  | other {e : Event} {t : Track} :
      ¬e.IsAlarm i a → (t.preferred → ¬e.IsDio i a) → Track.Step p i a e t t
  | left {now : Instant} {t : Track} : Track.Step p i a (.request (.leave i) now) t .gone
  | added {now : Instant} {t : Track} :
      ¬t.preferred → t.watch = none →
        Track.Step p i a (.request (.addParent i a) now) t { t with watch := some {} }
  | removed {now : Instant} {t : Track} :
      Track.Step p i a (.request (.removeParent i a) now) t .gone
  | chosen {now : Instant} {t : Track} {w : Watch} :
      ¬t.preferred → t.watch = some w →
        Track.Step p i a (.request (.command (.setPreferred i (some a))) now) t
          { t with preferred := True }
  | dropped {now : Instant} {t : Track} {b : Option Address} :
      t.preferred → b ≠ some a →
        Track.Step p i a (.request (.command (.setPreferred i b)) now) t
          { Track.gone with watch := t.watch.map fun _ => {} }
  | scheduled {now : Instant} {t : Track} {w : Watch} {delay listen jitter : Span} :
      t.preferred → t.watch = some w →
        Track.Step p i a (.request (.scheduleReception i a delay listen jitter) now) t
          { t with
            watch := some (w.predict delay listen jitter now)
            closing := some (now + (delay + listen + jitter)) }
  | solicited {now : Instant} {t : Track} :
      t.preferred →
        Track.Step p i a (.request (.command (.solicit i)) now) t
          { t with watch := t.watch.map Watch.ask }
  | heard {now : Instant} {t : Track} {w : Watch} {l : Lookahead} :
      t.preferred → t.watch = some w →
        Track.Step p i a (.request (.command (.dioReceived i a l)) now) t
          (t.hear w l.delay l.listen (l.jitter + p.receptionSkew) now)
  | missed {d : Instant} {after : Span} {t : Track} {w : Watch} :
      t.preferred → t.watch = some w → t.closing = some d →
        Track.Step p i a (.ring ⟨.watch i a, d⟩) t
          { t with
            watch := some { w with stage := .silent }
            closing := none
            probing := some (d + after) }
  | probed {d : Instant} {after : Span} {t : Track} {w : Watch} :
      t.preferred → t.watch = some w → t.probing = some d → w.stage = .silent →
        Track.Step p i a (.ring ⟨.probe i a, d⟩) t { t with probing := some (d + after) }

theorem Watch.reception_eq_first_iff (w : Watch) (listen jitter : Span) (now : Instant) :
    w.reception listen jitter now = .first ↔ w.tracking = false := by
  unfold Watch.reception Watch.tracking
  cases w.stage <;> simp
  split_ifs <;> simp

theorem Watch.reception_eq_late_iff {w : Watch} {listen jitter : Span} {now : Instant} :
    w.reception listen jitter now = .late ↔ w.stage = .awaitingWindow ∧ w.expected < now := by
  unfold Watch.reception
  cases w.stage
  case awaitingWindow =>
    dsimp only
    split_ifs <;> simp_all
  all_goals simp

/-- After an advertisement a window is predicted. -/
theorem Watch.tracking_hear (w : Watch) (delay listen jitter : Span) (now : Instant) :
    (w.hear delay listen jitter now).tracking = true := by
  have hfirst := w.reception_eq_first_iff listen jitter now
  unfold Watch.hear
  cases h : w.reception listen jitter now <;> simp_all [Watch.tracking, Watch.predict]

/-- Every step keeps the record and the alarms of a neighbour in agreement. -/
theorem Track.Step.sound {p : Platform} {i : InstanceId} {a : Address} {e : Event} {t t' : Track}
    (h : Track.Step p i a e t t') (ht : t.Sound) : t'.Sound := by
  cases h with
  | other => exact ht
  | left => exact Track.sound_gone
  | removed => exact Track.sound_gone
  | added hp =>
    obtain ⟨hclosing, hprobing, -⟩ := ht.idle hp
    exact ⟨fun _ => ⟨hclosing, hprobing, by simp⟩, fun h => (hp h).elim, fun h => (hp h).elim,
      fun h => (hp h).elim⟩
  | @chosen _ _ w hp hw =>
    obtain ⟨hclosing, hprobing, hdefault⟩ := ht.idle hp
    obtain rfl := hdefault w hw
    refine ⟨fun h => (h trivial).elim, fun _ => ⟨_, hw⟩, fun _ w' hw' => ?_, fun _ w' hw' => ?_⟩
    all_goals
      obtain rfl := Option.some.inj (hw.symm.trans hw')
    · simp [hprobing]
    · simp [Watch.tracking]
  | dropped =>
    refine ⟨fun _ => ⟨rfl, rfl, ?_⟩, fun h => h.elim, fun h => h.elim, fun h => h.elim⟩
    intro w hw
    obtain ⟨-, -, rfl⟩ := Option.map_eq_some_iff.1 hw
    rfl
  | @scheduled _ _ w _ _ _ hp hw =>
    refine ⟨fun h => (h hp).elim, fun _ => ⟨_, rfl⟩, fun _ w' hw' => ?_, fun _ _ _ _ => rfl⟩
    obtain rfl := Option.some.inj hw'
    exact ht.probing_iff hp w hw
  | solicited hp =>
    obtain ⟨w, hw⟩ := ht.registered hp
    refine ⟨fun h => (h hp).elim, fun _ => ⟨w.ask, by simp [hw]⟩, fun _ w' hw' => ?_,
      fun _ w' hw' htrack => ?_⟩
    all_goals
      obtain rfl : w.ask = w' := by simpa [hw] using hw'
    · rw [ht.probing_iff hp w hw]
      unfold Watch.ask
      split <;> simp_all
    · refine ht.closing_of_tracking hp w hw ?_
      unfold Watch.ask at htrack
      split at htrack <;> simp_all [Watch.tracking]
  | @heard now _ w l hp hw =>
    have htracking := w.tracking_hear l.delay l.listen (l.jitter + p.receptionSkew) now
    refine ⟨fun h => (h hp).elim, fun _ => ⟨_, rfl⟩, fun _ w' hw' => ?_, fun _ w' _ _ => ?_⟩
    · obtain rfl := Option.some.inj hw'
      have hstage : (w.hear l.delay l.listen (l.jitter + p.receptionSkew) now).stage ≠ .silent := by
        intro h
        simp [Watch.tracking, h] at htracking
      simp only [hstage, iff_false, Bool.not_eq_true, Option.isSome_eq_false_iff,
        Option.isNone_iff_eq_none]
      simp only [Track.hear]
      split
      · rfl
      · rename_i hfirst
        have hprobing := ht.probing_iff hp w hw
        rw [Watch.reception_eq_first_iff] at hfirst
        cases hs : w.stage <;> simp_all [Watch.tracking]
    · simp only [Track.hear, Watch.closing?]
      have hfirst := w.reception_eq_first_iff l.listen (l.jitter + p.receptionSkew) now
      cases hr : w.reception l.listen (l.jitter + p.receptionSkew) now with
      | first | late | repeated | answer => rfl
      | early | overlooked =>
        exact ht.closing_of_tracking hp w hw (by simpa [hr] using hfirst)
  | missed hp hw _ =>
    refine ⟨fun h => (h hp).elim, fun _ => ⟨_, rfl⟩, fun _ w' hw' => ?_, fun _ w' hw' htrack => ?_⟩
    all_goals
      obtain rfl := Option.some.inj hw'
    · simp
    · simp [Watch.tracking] at htrack
  | @probed _ _ _ w hp hw hd hsilent =>
    refine ⟨fun h => (h hp).elim, fun _ => ⟨w, hw⟩, fun _ w' hw' => ?_, fun _ w' hw' htrack => ?_⟩
    all_goals
      obtain rfl := Option.some.inj (hw.symm.trans hw')
    · simp [hsilent]
    · simp [Watch.tracking, hsilent] at htrack

/-- An event that is neither an alarm of the neighbour nor an advertisement may leave its track as
it is. -/
theorem Track.Step.of_eq {p : Platform} {i : InstanceId} {a : Address} {e : Event} {t t' : Track}
    (h : t' = t) (halarm : ¬e.IsAlarm i a) (hdio : t.preferred → ¬e.IsDio i a) :
    Track.Step p i a e t t' := by
  subst h
  exact .other halarm hdio

namespace Node

variable {ρ : Type} {n m : Node ρ} {i j : InstanceId} {a b : Address} {p : Platform}
  {now : Instant}

/-! ## Requests about parents -/

theorem step_leave : Track.Step p i a (.request (.leave j) now) (n.track i a)
    ((n.leave j).state.track i a) := by
  unfold leave
  split
  · by_cases hij : i = j
    · subst hij
      convert Track.Step.left using 1
      simp [track, preferred?, watch?, Track.gone, Purpose.inst?]
    · refine .of_eq ?_ (by simp [Event.IsAlarm]) (by simp [Event.IsDio])
      simp [track, preferred?, watch?, Purpose.inst?, hij]
  · exact .other (by simp [Event.IsAlarm]) (by simp [Event.IsDio])

theorem step_addParent (hs : (n.track i a).Sound) :
    Track.Step p i a (.request (.addParent j b) now) (n.track i a)
      ((addParent p n j b).state.track i a) := by
  have hother : Track.Step p i a (.request (.addParent j b) now) (n.track i a) (n.track i a) :=
    .other (by simp [Event.IsAlarm]) (by simp [Event.IsDio])
  unfold addParent
  split
  · exact hother
  rename_i d hd
  split
  · exact hother
  rename_i hnew
  split
  · exact hother
  by_cases hij : i = j ∧ a = b
  · obtain ⟨rfl, rfl⟩ := hij
    have hnone : (n.track i a).watch = none := by
      rw [Table.contains_iff, not_exists] at hnew
      simpa [track, watch?, hd] using Option.eq_none_iff_forall_ne_some.2 hnew
    have hp : ¬(n.track i a).preferred := by
      intro hp
      obtain ⟨w, hw⟩ := hs.registered hp
      rw [hnone] at hw
      cases hw
    convert Track.Step.added hp hnone using 1
    simp [track_putDodag, track_of_find? hd]
  · refine .of_eq ?_ (by simp [Event.IsAlarm]) (by simp [Event.IsDio])
    simp only [Outcome.state_granted, track_putDodag]
    split
    · rename_i h
      subst h
      have hab : a ≠ b := fun h => hij ⟨rfl, h⟩
      simp [track_of_find? hd, hab]
    · rfl

theorem step_removeParent : Track.Step p i a (.request (.removeParent j b) now) (n.track i a)
    ((n.removeParent j b).state.track i a) := by
  have hother : Track.Step p i a (.request (.removeParent j b) now) (n.track i a) (n.track i a) :=
    .other (by simp [Event.IsAlarm]) (by simp [Event.IsDio])
  unfold removeParent
  split
  · exact hother
  rename_i d hd
  split
  · by_cases hij : i = j ∧ a = b
    · obtain ⟨rfl, rfl⟩ := hij
      convert Track.Step.removed using 1
      simp only [Outcome.state_granted, forgetAlarms, track, preferred?, watch?, putDodag,
        Table.find?_insert]
      by_cases hp : d.preferred = some a <;> simp [hp, Track.gone]
    · refine .of_eq ?_ (by simp [Event.IsAlarm]) (by simp [Event.IsDio])
      simp only [Outcome.state_granted, forgetAlarms, track, preferred?, watch?, putDodag,
        Table.find?_insert]
      by_cases h : i = j
      · subst h
        have hab : a ≠ b := fun h => hij ⟨rfl, h⟩
        by_cases hp : d.preferred = some b <;> simp [hd, hp, hab, hab.symm]
      · simp [h]
  · exact hother

theorem step_setPreferred {c : Option Address} :
    Track.Step p i a (.request (.command (.setPreferred j c)) now) (n.track i a)
      ((n.setPreferred j c).state.track i a) := by
  have hother : Track.Step p i a (.request (.command (.setPreferred j c)) now) (n.track i a)
      (n.track i a) := .other (by simp [Event.IsAlarm]) (by simp [Event.IsDio])
  unfold setPreferred
  split
  · exact hother
  rename_i d hd
  split
  · exact hother
  rename_i hknown
  split
  · exact hother
  rename_i hne
  by_cases hij : i = j
  swap
  · refine .of_eq ?_ (by simp [Event.IsAlarm]) (by simp [Event.IsDio])
    split <;> simp [forgetAlarms, track, preferred?, watch?, putDodag, hij]
  subst hij
  have hbefore := track_of_find? (a := a) hd
  by_cases hold : d.preferred = some a
  · -- `a` loses its preference.
    have hca : c ≠ some a := fun h => hne (hold.trans h.symm)
    have hp : (n.track i a).preferred := by rw [hbefore]; exact hold
    convert Track.Step.dropped hp hca using 1
    simp [hold, forgetAlarms, track, preferred?, watch?, putDodag, hca, Track.gone, hd]
  by_cases hnew : c = some a
  · -- `a` becomes the preferred parent.
    subst hnew
    have hp : ¬(n.track i a).preferred := by rw [hbefore]; exact hold
    obtain ⟨w, hw⟩ : ∃ w, d.parents.find? a = some w := by
      simpa [Table.contains, ← Option.ne_none_iff_exists'] using hknown
    have hwatch : (n.track i a).watch = some w := by rw [hbefore]; exact hw
    convert Track.Step.chosen hp hwatch using 1
    split
    · simp [track_putDodag, hbefore]
    · rename_i old hold'
      have hne' : a ≠ old := fun h => hold (h ▸ hold')
      simp [forgetAlarms, track, preferred?, watch?, putDodag, hd, hne']
  · refine .of_eq ?_ (by simp [Event.IsAlarm]) (by simp [Event.IsDio])
    split
    · simp [track_putDodag, hbefore, hnew, hold]
    · rename_i old hold'
      have hne' : a ≠ old := fun h => hold (h ▸ hold')
      simp [forgetAlarms, track, preferred?, watch?, putDodag, hd, hne', hnew, hold]

/-! ## Tracking the preferred parent -/

/-- A record that is replaced changes one track. -/
theorem track_putWatch {d : Dodag} {w : Watch} (hd : n.dodags.find? j = some d) :
    (n.putWatch j d b w).track i a =
      if i = j ∧ a = b then { n.track i a with watch := some w } else n.track i a := by
  rw [putWatch, track_putDodag]
  by_cases hij : i = j
  · subst hij
    by_cases hab : a = b <;> simp [track_of_find? hd, hab]
  · simp [hij]

/-- The prediction of a window: the record of the preferred parent and the alarm of its window. -/
theorem track_scheduleReception {d : Dodag} {w : Watch} {delay listen jitter : Span}
    (hd : n.dodags.find? j = some d) (hp : d.preferred = some b)
    (hw : d.parents.find? b = some w) :
    (n.scheduleReception j b delay listen jitter now).state.track i a =
      if i = j ∧ a = b then
        { n.track i a with
          watch := some (w.predict delay listen jitter now)
          closing := some (now + (delay + listen + jitter)) }
      else n.track i a := by
  simp only [scheduleReception, hd, hp, hw, ne_eq, not_true_eq_false, if_false,
    Outcome.state_granted]
  rw [track_arm, sameTracks_emit, track_putWatch hd]
  by_cases h : i = j ∧ a = b
  · obtain ⟨rfl, rfl⟩ := h
    simp [Watch.predict]
  · have hq : Purpose.watch i a ≠ .watch j b := fun hq => by
      cases hq
      exact h ⟨rfl, rfl⟩
    simp [h, hq]

theorem step_scheduleReception {delay listen jitter : Span} :
    Track.Step p i a (.request (.scheduleReception j b delay listen jitter) now) (n.track i a)
      ((n.scheduleReception j b delay listen jitter now).state.track i a) := by
  have hother : Track.Step p i a (.request (.scheduleReception j b delay listen jitter) now)
      (n.track i a) (n.track i a) := .other (by simp [Event.IsAlarm]) (by simp [Event.IsDio])
  cases hd : n.dodags.find? j with
  | none => simpa [scheduleReception, hd] using hother
  | some d =>
    by_cases hp : d.preferred = some b
    swap
    · simpa [scheduleReception, hd, hp] using hother
    cases hw : d.parents.find? b with
    | none => simpa [scheduleReception, hd, hp, hw] using hother
    | some w =>
      rw [track_scheduleReception hd hp hw]
      split
      · rename_i h
        obtain ⟨rfl, rfl⟩ := h
        refine .scheduled ?_ ?_ <;> rw [track_of_find? hd]
        · exact hp
        · exact hw
      · exact hother

theorem step_solicit {out : Outcome (Node ρ)} (h : n.solicit j = .ok out) :
    Track.Step p i a (.request (.command (.solicit j)) now) (n.track i a)
      (out.state.track i a) := by
  have hother : Track.Step p i a (.request (.command (.solicit j)) now) (n.track i a)
      (n.track i a) := .other (by simp [Event.IsAlarm]) (by simp [Event.IsDio])
  unfold solicit at h
  split at h
  · cases h
    exact hother
  rename_i d hd
  split at h
  · cases h
    exact hother
  rename_i b hb
  obtain ⟨k, hk, h⟩ := Checked.bind_eq_ok_iff.1 h
  cases h
  rw [Outcome.state_granted, sameTracks_sendProbe hk, track_putDodag]
  split
  · rename_i hij
    subst hij
    by_cases hab : a = b
    · subst hab
      have hp : (n.track i a).preferred := by rw [track_of_find? hd]; exact hb
      convert Track.Step.solicited hp using 1
      simp only [track_of_find? hd, Table.find?_adjust, if_true]
      rfl
    · refine .of_eq ?_ (by simp [Event.IsAlarm]) (by simp [Event.IsDio])
      simp [track_of_find? hd, hab]
  · exact hother

/-- An advertisement of the preferred parent is handled as its reception says. -/
theorem dioReceived_eq {d : Dodag} {w : Watch} {l : Lookahead} (hd : n.dodags.find? j = some d)
    (hp : d.preferred = some b) (hw : d.parents.find? b = some w) :
    dioReceived p n j b l now =
      match w.reception l.listen (l.jitter + p.receptionSkew) now with
      | .first => .ok (n.firstHeard j d b w l.delay l.listen (l.jitter + p.receptionSkew) now)
      | .answer => .ok (n.answerHeard j d b w l.listen (l.jitter + p.receptionSkew) now)
      | .late => n.lateHeard j d b w l.delay l.listen (l.jitter + p.receptionSkew) now
      | .repeated =>
        .ok (n.scheduleReception j b l.delay l.listen (l.jitter + p.receptionSkew) now)
      | .early | .overlooked => .ok (.granted (n.emit (.dioEarly j (w.expected - now)))) := by
  simp only [dioReceived, hd, hp, hw, ne_eq, not_true_eq_false, if_false, Watch.reception]
  cases w.stage
  case awaitingWindow =>
    dsimp only
    split_ifs <;> rfl
  all_goals rfl

/-- A window is predicted for a record that was just replaced. -/
theorem track_scheduleReception_putWatch {d : Dodag} {w : Watch} {delay listen jitter : Span}
    (hp : d.preferred = some b) (hm : m.dodags = (n.putWatch j d b w).dodags) :
    (m.scheduleReception j b delay listen jitter now).state.track i a =
      if i = j ∧ a = b then
        { m.track i a with
          watch := some (w.predict delay listen jitter now)
          closing := some (now + (delay + listen + jitter)) }
      else m.track i a := by
  have hfind : m.dodags.find? j = some { d with parents := d.parents.insert b w } := by
    rw [hm]
    simp [putWatch, putDodag]
  exact track_scheduleReception hfind hp (by simp)

theorem track_firstHeard {d : Dodag} {w : Watch} {delay listen jitter : Span}
    (hd : n.dodags.find? j = some d) (hp : d.preferred = some b) :
    (n.firstHeard j d b w delay listen jitter now).state.track i a =
      if i = j ∧ a = b then
        { n.track i a with
          watch := some ({ w with stage := .awaitingWindow }.predict delay listen jitter now)
          closing := some (now + (delay + listen + jitter))
          probing := none }
      else n.track i a := by
  unfold firstHeard
  have hput := track_putWatch (a := a) (i := i) (b := b)
    (w := { w with stage := .awaitingWindow }) hd
  extract_lets k m₁ m
  have hdodags : m.dodags = k.dodags := by
    simp only [m, m₁]
    split <;> rfl
  have halarms : m.alarms = n.alarms.stop (.probe j b) := by
    simp only [m, m₁]
    split <;> rfl
  have hm : m.track i a =
      { k.track i a with
        probing := if i = j ∧ a = b then none else (n.track i a).probing } := by
    have hk : k.alarms = n.alarms := rfl
    simp [track, preferred?, watch?, hdodags, halarms, hk]
  rw [track_scheduleReception_putWatch hp hdodags, hm, hput]
  split <;> rfl

theorem lateHeard_eq_ok {d : Dodag} {w : Watch} {delay listen jitter : Span}
    {out : Outcome (Node ρ)} (h : n.lateHeard j d b w delay listen jitter now = .ok out) :
    w.expected.ticks ≤ now.ticks ∧ n.counts.latencySamples + 1 < wordLimit32 ∧
      ∃ k : Node ρ,
        k.dodags = (n.putWatch j d b { w with latency := some (now - w.expected) }).dodags ∧
        k.alarms = n.alarms ∧ k.samples = n.samples ++ [⟨j, b, now - w.expected⟩] ∧
        k.counts = n.counts.set .latencySamples (n.counts.latencySamples + 1) ∧
        out = k.scheduleReception j b delay listen jitter now := by
  obtain ⟨latency, hl, h⟩ := Checked.bind_eq_ok_iff.1 h
  obtain ⟨k, hk, h⟩ := Checked.bind_eq_ok_iff.1 h
  obtain ⟨hlt, rfl⟩ := count_eq_ok hk
  rw [← Except.ok.inj h]
  obtain ⟨hle, hticks⟩ := Instant.since?_eq_ok_iff.1 hl
  obtain rfl : latency = now - w.expected := by
    rw [Span.ext_iff, hticks, Instant.ticks_sub]
  refine ⟨hle, hlt, _, ?_, ?_, ?_, ?_, rfl⟩ <;> rfl

/-- Whatever an advertisement of the preferred parent means, its record and its alarms change as
`Track.hear` says, and no other track does. -/
theorem track_dioReceived {d : Dodag} {w : Watch} {l : Lookahead} {out : Outcome (Node ρ)}
    (hd : n.dodags.find? j = some d) (hp : d.preferred = some b)
    (hw : d.parents.find? b = some w) (h : dioReceived p n j b l now = .ok out) :
    out.state.track i a =
      if i = j ∧ a = b then
        (n.track i a).hear w l.delay l.listen (l.jitter + p.receptionSkew) now
      else n.track i a := by
  rw [dioReceived_eq hd hp hw] at h
  have hput (w' : Watch) := track_putWatch (a := a) (i := i) (b := b) (w := w') hd
  cases hr : w.reception l.listen (l.jitter + p.receptionSkew) now with
  | first =>
    simp only [hr] at h
    rw [← Except.ok.inj h, track_firstHeard hd hp]
    simp [Track.hear, Watch.hear, Watch.closing?, hr]
  | answer =>
    simp only [hr] at h
    rw [← Except.ok.inj h]
    simp only [answerHeard, Outcome.state_granted]
    rw [track_arm, sameTracks_emit, hput]
    by_cases hij : i = j ∧ a = b
    · obtain ⟨rfl, rfl⟩ := hij
      simp [Track.hear, Watch.hear, Watch.closing?, hr]
    · have hq : Purpose.watch i a ≠ .watch j b := fun hq => by
        cases hq
        exact hij ⟨rfl, rfl⟩
      simp [hij, hq]
  | late =>
    simp only [hr] at h
    obtain ⟨-, -, k, hk, halarms, -, -, rfl⟩ := lateHeard_eq_ok h
    rw [track_scheduleReception_putWatch hp hk, track_congr (m := k) hk halarms, hput]
    by_cases hij : i = j ∧ a = b <;> simp [hij, Track.hear, Watch.hear, Watch.closing?, hr]
  | repeated =>
    simp only [hr] at h
    rw [← Except.ok.inj h, track_scheduleReception hd hp hw]
    simp [Track.hear, Watch.hear, Watch.closing?, hr]
  | early | overlooked =>
    simp only [hr] at h
    rw [← Except.ok.inj h, Outcome.state_granted, sameTracks_emit]
    split
    · rename_i hij
      obtain ⟨rfl, rfl⟩ := hij
      simp [Track.hear, Watch.hear, Watch.closing?, hr, track_of_find? hd, hw]
    · rfl

/-- An advertisement of a neighbour that is not the preferred parent changes nothing. -/
theorem dioReceived_of_not_preferred {l : Lookahead} {out : Outcome (Node ρ)}
    (hp : ¬((n.track j b).preferred ∧ (n.track j b).watch.isSome))
    (h : dioReceived p n j b l now = .ok out) : out.state = n := by
  unfold dioReceived at h
  split at h
  · rw [← Except.ok.inj h]
    rfl
  rename_i d hd
  rw [track_of_find? hd] at hp
  split at h
  · rw [← Except.ok.inj h]
    rfl
  rename_i hpref
  split at h
  · rw [← Except.ok.inj h]
    rfl
  · rename_i w hw
    exact absurd ⟨not_ne_iff.1 hpref, by simp [hw]⟩ hp

theorem step_dioReceived {l : Lookahead} {out : Outcome (Node ρ)} (hs : (n.track j b).Sound)
    (h : dioReceived p n j b l now = .ok out) :
    Track.Step p i a (.request (.command (.dioReceived j b l)) now) (n.track i a)
      (out.state.track i a) := by
  by_cases hp : (n.track j b).preferred
  · obtain ⟨w, hw⟩ := hs.registered hp
    obtain ⟨d, hd, hpref, hfind⟩ := dodag_of_track hp hw
    rw [track_dioReceived hd hpref hfind h]
    by_cases hij : i = j ∧ a = b
    · obtain ⟨rfl, rfl⟩ := hij
      simpa using Track.Step.heard hp hw
    · rw [if_neg hij]
      refine .other (by simp [Event.IsAlarm]) ?_
      intro _
      rintro ⟨l', now', heq⟩
      cases heq
      exact hij ⟨rfl, rfl⟩
  · have hsame := dioReceived_of_not_preferred (fun h => hp h.1) h
    rw [hsame]
    refine .other (by simp [Event.IsAlarm]) ?_
    intro hpref
    rintro ⟨l', now', heq⟩
    cases heq
    exact hp hpref

/-! ## The alarms of a parent -/

variable [RandomSource ρ]

/-- The alarm of the next probe is set at least one tick ahead. -/
theorem armProbe_eq (p : Platform) (n : Node ρ) (j : InstanceId) (b : Address) (now : Instant) :
    ∃ source after, 1 ≤ after.ticks ∧
    armProbe p n j b now = ({ n with source } : Node ρ).arm (.probe j b) now after := by
  rcases hdraw : RandomSource.draw n.source 1 (min (p.probeMaxDelay.ticks + 1) maxTicks) with
    ⟨delay, source⟩
  have hle := RandomSource.le_draw n.source 1 (min (p.probeMaxDelay.ticks + 1) maxTicks)
  rw [hdraw] at hle
  refine ⟨source, .ofTicks delay, ?_, by rw [armProbe, hdraw]⟩
  rw [Span.ticks_ofTicks, maxTicks]
  dsimp only at hle
  omega

theorem track_armProbe (p : Platform) (n : Node ρ) (j : InstanceId) (b : Address) (now : Instant)
    (i : InstanceId) (a : Address) :
    ∃ after : Span, 1 ≤ after.ticks ∧ (armProbe p n j b now).track i a =
      if i = j ∧ a = b then { n.track i a with probing := some (now + after) }
      else n.track i a := by
  obtain ⟨source, after, hafter, heq⟩ := armProbe_eq p n j b now
  refine ⟨after, hafter, ?_⟩
  have hsame : ({ n with source } : Node ρ).track i a = n.track i a := track_congr rfl rfl
  rw [heq, track_arm, hsame]
  by_cases hij : i = j ∧ a = b
  · obtain ⟨rfl, rfl⟩ := hij
    simp
  · have hq : Purpose.probe i a ≠ .probe j b := fun hq => by
      cases hq
      exact hij ⟨rfl, rfl⟩
    simp [hij, hq]

/-- The alarm of a window finds the preferred parent silent and starts to probe it. -/
theorem watchRings_eq_ok (h : watchRings p n j b now = .ok m) :
    (m = n ∧ ¬((n.track j b).preferred ∧ (n.track j b).watch.isSome)) ∨
      ∃ d w k, n.dodags.find? j = some d ∧ d.preferred = some b ∧ d.parents.find? b = some w ∧
        (n.putWatch j d b { w with stage := .silent }).count .windowsMissed = .ok k ∧
        m = armProbe p (k.emit (.windowMissed j b)) j b now := by
  unfold watchRings at h
  split at h
  · rename_i hnone
    refine .inl ⟨(Except.ok.inj h).symm, ?_⟩
    simp [track, preferred?, hnone]
  rename_i d hd
  rw [track_of_find? hd]
  split at h
  · rename_i hp
    exact .inl ⟨(Except.ok.inj h).symm, fun h => hp h.1⟩
  rename_i hp
  split at h
  · rename_i hnone
    exact .inl ⟨(Except.ok.inj h).symm, by simp [hnone]⟩
  · rename_i w hw
    obtain ⟨k, hk, h⟩ := Checked.bind_eq_ok_iff.1 h
    exact .inr ⟨d, w, k, hd, not_ne_iff.1 hp, hw, hk, (Except.ok.inj h).symm⟩

theorem track_watchRings (h : watchRings p n j b now = .ok m) (hij : ¬(i = j ∧ a = b)) :
    m.track i a = n.track i a := by
  rcases watchRings_eq_ok h with ⟨rfl, -⟩ | ⟨d, w, k, hd, -, -, hk, rfl⟩
  · rfl
  · obtain ⟨after, -, harm⟩ := track_armProbe p (k.emit (.windowMissed j b)) j b now i a
    rw [harm, if_neg hij, sameTracks_emit, sameTracks_count hk, track_putWatch hd, if_neg hij]

/-- The alarm of a probe sends one to a silent parent and sets the next. -/
theorem probeRings_eq_ok (h : probeRings p n j b now = .ok m) :
    (m = n ∧ ¬((n.track j b).preferred ∧ ∃ w ∈ (n.track j b).watch, w.stage = .silent)) ∨
      ((n.track j b).preferred ∧ (∃ w ∈ (n.track j b).watch, w.stage = .silent) ∧
        ∃ k, n.sendProbe j b = .ok k ∧ m = armProbe p k j b now) := by
  unfold probeRings at h
  split at h
  · rename_i hnone
    refine .inl ⟨(Except.ok.inj h).symm, ?_⟩
    simp [track, preferred?, hnone]
  rename_i d hd
  rw [track_of_find? hd]
  split at h
  · rename_i hp
    exact .inl ⟨(Except.ok.inj h).symm, fun h => hp h.1⟩
  rename_i hp
  split at h
  · rename_i hsilent
    obtain ⟨k, hk, h⟩ := Checked.bind_eq_ok_iff.1 h
    simp only [Option.any_eq_true, decide_eq_true_eq] at hsilent
    exact .inr ⟨not_ne_iff.1 hp, hsilent, k, hk, (Except.ok.inj h).symm⟩
  · rename_i hsilent
    simp only [Option.any_eq_true, decide_eq_true_eq] at hsilent
    exact .inl ⟨(Except.ok.inj h).symm, fun h => hsilent h.2⟩

theorem track_probeRings (h : probeRings p n j b now = .ok m) (hij : ¬(i = j ∧ a = b)) :
    m.track i a = n.track i a := by
  rcases probeRings_eq_ok h with ⟨rfl, -⟩ | ⟨-, -, k, hk, rfl⟩
  · rfl
  · obtain ⟨after, -, harm⟩ := track_armProbe p k j b now i a
    rw [harm, if_neg hij, sameTracks_sendProbe hk]

/-! ## Every event is a step of every track -/

theorem step_watchRings {d : Instant} (hs : (n.track i a).Sound)
    (hd : n.alarms.deadline? (.watch j b) = some d)
    (h : watchRings p { n with alarms := n.alarms.stop (.watch j b) } j b d = .ok m) :
    Track.Step p i a (.ring ⟨.watch j b, d⟩) (n.track i a) (m.track i a) := by
  have hstop := track_stop (n := n) (i := i) (a := a) (q := .watch j b)
  generalize hk : ({ n with alarms := n.alarms.stop (.watch j b) } : Node ρ) = k at h hstop
  by_cases hij : i = j ∧ a = b
  · obtain ⟨rfl, rfl⟩ := hij
    have hp : (n.track i a).preferred := by
      by_contra hp
      have hnone : n.alarms.deadline? (.watch i a) = none := (hs.idle hp).1
      rw [hd] at hnone
      cases hnone
    obtain ⟨w, hw⟩ := hs.registered hp
    rcases watchRings_eq_ok h with ⟨-, hnot⟩ | ⟨e, w', l, he, hpref, hw', hl, rfl⟩
    · rw [hstop] at hnot
      exact absurd ⟨hp, by simp [hw]⟩ hnot
    · obtain rfl : w' = w := by
        have hfind : (k.track i a).watch = some w' := by rw [track_of_find? he]; exact hw'
        rw [hstop] at hfind
        exact Option.some.inj (hfind.symm.trans hw)
      obtain ⟨after, -, harm⟩ := track_armProbe p (l.emit (.windowMissed i a)) i a d i a
      have hmissed : Track.Step p i a (.ring ⟨.watch i a, d⟩) (n.track i a) { n.track i a with
          watch := some { w' with stage := .silent }
          closing := none
          probing := some (d + after) } := .missed hp hw hd
      rw [harm, sameTracks_emit, sameTracks_count hl, track_putWatch he, hstop]
      simpa using hmissed
  · rw [track_watchRings h hij, hstop]
    refine .of_eq ?_ (by simpa [Event.IsAlarm, eq_comm] using hij) (by simp [Event.IsDio])
    simp [hij]

theorem step_probeRings {d : Instant} (hs : (n.track i a).Sound)
    (hd : n.alarms.deadline? (.probe j b) = some d)
    (h : probeRings p { n with alarms := n.alarms.stop (.probe j b) } j b d = .ok m) :
    Track.Step p i a (.ring ⟨.probe j b, d⟩) (n.track i a) (m.track i a) := by
  have hstop := track_stop (n := n) (i := i) (a := a) (q := .probe j b)
  generalize hk : ({ n with alarms := n.alarms.stop (.probe j b) } : Node ρ) = k at h hstop
  by_cases hij : i = j ∧ a = b
  · obtain ⟨rfl, rfl⟩ := hij
    have hp : (n.track i a).preferred := by
      by_contra hp
      have hnone : n.alarms.deadline? (.probe i a) = none := (hs.idle hp).2.1
      rw [hd] at hnone
      cases hnone
    obtain ⟨w, hw⟩ := hs.registered hp
    have hsilent : w.stage = .silent := by
      rw [← hs.probing_iff hp w hw]
      simp [track, hd]
    rcases probeRings_eq_ok h with ⟨-, hnot⟩ | ⟨-, -, l, hl, rfl⟩
    · rw [hstop] at hnot
      exact absurd ⟨hp, w, hw, hsilent⟩ hnot
    · obtain ⟨after, -, harm⟩ := track_armProbe p l i a d i a
      have hprobed : Track.Step p i a (.ring ⟨.probe i a, d⟩) (n.track i a)
          { n.track i a with probing := some (d + after) } := .probed hp hw hd hsilent
      rw [harm, sameTracks_sendProbe hl, hstop]
      simpa using hprobed
  · rw [track_probeRings h hij, hstop]
    refine .of_eq ?_ (by simpa [Event.IsAlarm, eq_comm] using hij) (by simp [Event.IsDio])
    simp [hij]

/-- An alarm that rings is a step of every track. -/
theorem step_ring {r : Ring} {alarms : AlarmTable} (hs : (n.track i a).Sound)
    (hring : n.alarms.ring? now = some (r, alarms))
    (h : handleRing p { n with alarms } r = .ok m) :
    Track.Step p i a (.ring r) (n.track i a) (m.track i a) := by
  obtain ⟨hd, -, rfl, -⟩ := AlarmTable.ring?_eq_some hring
  obtain ⟨q, d⟩ := r
  cases q with
  | upkeep =>
    have hsame := (sameTracks_stop (n := n) (by simp) (by simp)).trans (sameTracks_upkeepRings h)
    exact .of_eq (hsame i a) (by simp [Event.IsAlarm]) (by simp [Event.IsDio])
  | advertise j =>
    have hsame := (sameTracks_stop (n := n) (by simp) (by simp)).trans (sameTracks_advertiseRings h)
    exact .of_eq (hsame i a) (by simp [Event.IsAlarm]) (by simp [Event.IsDio])
  | report j =>
    have hsame := (sameTracks_stop (n := n) (by simp) (by simp)).trans (sameTracks_reportRings h)
    exact .of_eq (hsame i a) (by simp [Event.IsAlarm]) (by simp [Event.IsDio])
  | watch j b => exact step_watchRings hs hd h
  | probe j b => exact step_probeRings hs hd h

/-- A request is a step of every track. -/
theorem step_perform {o : Operation} {out : Outcome (Node ρ)} (hs : ∀ i a, (n.track i a).Sound)
    (ho : o ≠ .handleTimer) (h : n.perform p o now = .ok out) :
    Track.Step p i a (.request o now) (n.track i a) (out.state.track i a) := by
  have hother (o : Operation) (hsame : n.SameTracks out.state)
      (hdio : ¬(Event.request o now).IsDio i a) :
      Track.Step p i a (.request o now) (n.track i a) (out.state.track i a) :=
    .of_eq (hsame i a) (by simp [Event.IsAlarm]) fun _ => hdio
  cases o with
  | join j params => exact hother _ (sameTracks_join h) (by simp [Event.IsDio])
  | leave j =>
    cases h
    exact step_leave
  | addParent j b =>
    cases h
    exact step_addParent (hs i a)
  | removeParent j b =>
    cases h
    exact step_removeParent
  | scheduleReception j b delay listen jitter =>
    cases h
    exact step_scheduleReception
  | handleTimer => exact absurd rfl ho
  | command c =>
    cases c with
    | resetDio j force => exact hother _ (sameTracks_resetDio h) (by simp [Event.IsDio])
    | scheduleDao j => exact hother _ (sameTracks_scheduleDao h) (by simp [Event.IsDio])
    | dioConsistent j =>
      cases h
      exact hother _ sameTracks_dioConsistent (by simp [Event.IsDio])
    | dioReceived j b l => exact step_dioReceived (hs j b) h
    | setPreferred j c =>
      cases h
      exact step_setPreferred
    | solicit j => exact step_solicit h
    | restartUpkeep =>
      cases h
      exact hother _ sameTracks_restartUpkeep (by simp [Event.IsDio])

/-- Whatever happens to a node whose tracks are sound, each of its tracks takes a step. -/
theorem Moment.Valid.track_step {s : Moment ρ} (h : s.Valid p)
    (hs : ∀ i a, (s.before.track i a).Sound) (i : InstanceId) (a : Address) :
    Track.Step p i a s.event (s.before.track i a) (s.after.track i a) := by
  cases h with
  | request ho hout => exact step_perform hs ho hout
  | ring hring hm => exact step_ring (hs i a) hring hm
  | settled => exact .other (by simp [Event.IsAlarm]) (by simp [Event.IsDio])

end Node

end TrickleNet
