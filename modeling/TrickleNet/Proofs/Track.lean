import Mathlib
import TrickleNet.Proofs.Run
import TrickleNet.Proofs.Steps
/-!
# What a node keeps about a neighbour

A `Track` is all that a node keeps about one neighbour in one instance: whether it is the preferred
parent, its record, and the deadlines of the two alarms that watch and probe it.  `Node.track` reads
it off a node.

`Track.hear` says what an advertisement does to a track, and the lemmas about `Node.SameTracks`
which steps of a node leave all tracks alone.  What holds of all parents in all runs is proved one
track at a time.
-/

namespace TrickleNet

/-! ## What an advertisement means to the record of a parent -/

/-- How an advertisement of the preferred parent is taken. -/
inductive Reception where
  /-- It is the first one, or the first one after a silence. -/
  | first
  /-- It answers a solicitation. -/
  | answer
  /-- It comes after it was expected. -/
  | late
  /-- It comes in time and announces an interval as long as the one predicted. -/
  | repeated
  /-- It comes before it was expected and announces an interval of another length. -/
  | early
  /-- It comes exactly when it was expected and announces an interval of another length. -/
  | overlooked
deriving DecidableEq, Repr

namespace Watch

/-- How an advertisement is taken that arrives at `now` and announces these phases. -/
def reception (w : Watch) (listen jitter : Span) (now : Instant) : Reception :=
  match w.stage with
  | .awaitingFirst | .silent => .first
  | .solicited => .answer
  | .awaitingWindow =>
    if w.expected < now then .late
    else if listen + jitter = w.length then .repeated
    else if now < w.expected then .early
    else .overlooked

/-- The record after the prediction of an interval that begins `delay` after `now`. -/
def predict (w : Watch) (delay listen jitter : Span) (now : Instant) : Watch :=
  { w with opens := now + delay, listen, jitter }

/-- The record after a solicitation. -/
def ask (w : Watch) : Watch :=
  if w.stage = .awaitingWindow then { w with stage := .solicited } else w

/-- The record after an advertisement. -/
def hear (w : Watch) (delay listen jitter : Span) (now : Instant) : Watch :=
  match w.reception listen jitter now with
  | .first => { w with stage := .awaitingWindow }.predict delay listen jitter now
  | .answer => { w with stage := .awaitingWindow, listen, jitter }
  | .late => { w with latency := some (now - w.expected) }.predict delay listen jitter now
  | .repeated => w.predict delay listen jitter now
  | .early | .overlooked => w

/-- When the alarm of the window is due after an advertisement, if that sets it. -/
def closing? (w : Watch) (delay listen jitter : Span) (now : Instant) : Option Instant :=
  match w.reception listen jitter now with
  | .first | .late | .repeated => some (now + (delay + listen + jitter))
  | .answer => some (now + ((w.closes + listen) - now + jitter))
  | .early | .overlooked => none

/-- An advertisement that does not set the alarm of the window changes nothing. -/
theorem hear_eq_self {w : Watch} {delay listen jitter : Span} {now : Instant}
    (h : w.closing? delay listen jitter now = none) : w.hear delay listen jitter now = w := by
  unfold closing? at h
  unfold hear
  split at h <;> simp_all

end Watch

/-! ## Tracks -/

/-- What a node keeps about a neighbour in an instance. -/
@[ext] structure Track where
  /-- Whether the neighbour is the preferred parent. -/
  preferred : Prop
  /-- The record of the neighbour, if it is a candidate parent. -/
  watch : Option Watch
  /-- When its window closes, if an alarm is set for that. -/
  closing : Option Instant
  /-- When it is probed next, if an alarm is set for that. -/
  probing : Option Instant

/-- The track of a neighbour that means nothing to the node. -/
def Track.gone : Track := ⟨False, none, none, none⟩

/-- The track after an advertisement of the preferred parent. -/
def Track.hear (t : Track) (w : Watch) (delay listen jitter : Span) (now : Instant) : Track :=
  { t with
    watch := some (w.hear delay listen jitter now)
    closing := (w.closing? delay listen jitter now).or t.closing
    probing := if w.reception listen jitter now = .first then none else t.probing }

namespace Node

variable {ρ : Type} {n m : Node ρ} {i j : InstanceId} {a b : Address} {d : Dodag}

/-- The preferred parent of an instance. -/
def preferred? (n : Node ρ) (i : InstanceId) : Option Address :=
  (n.dodags.find? i).bind Dodag.preferred

/-- What the node keeps about a neighbour. -/
def track (n : Node ρ) (i : InstanceId) (a : Address) : Track where
  preferred := n.preferred? i = some a
  watch := n.watch? i a
  closing := n.alarms.deadline? (.watch i a)
  probing := n.alarms.deadline? (.probe i a)

theorem track_congr (hd : m.dodags = n.dodags) (ha : m.alarms = n.alarms) :
    m.track i a = n.track i a := by
  rw [track, preferred?, watch?, hd, ha]
  rfl

theorem SameCore.track (h : n.SameCore m) : m.track i a = n.track i a :=
  track_congr h.dodags h.alarms

theorem track_putDodag :
    (n.putDodag j d).track i a =
      if i = j then
        { n.track i a with preferred := d.preferred = some a, watch := d.parents.find? a }
      else n.track i a := by
  by_cases h : i = j <;> simp [track, preferred?, watch?, putDodag, h]

theorem track_arm {q : Purpose} {now : Instant} {after : Span} :
    (n.arm q now after).track i a =
      { n.track i a with
        closing := if .watch i a = q then some (now + after) else (n.track i a).closing
        probing := if .probe i a = q then some (now + after) else (n.track i a).probing } := by
  simp [track, preferred?, watch?, arm]

theorem track_stop {q : Purpose} :
    ({ n with alarms := n.alarms.stop q } : Node ρ).track i a =
      { n.track i a with
        closing := if .watch i a = q then none else (n.track i a).closing
        probing := if .probe i a = q then none else (n.track i a).probing } := by
  simp [track, preferred?, watch?]

/-- An instance keeps its tracks when neither its parents nor the preferred one change. -/
theorem track_putDodag_of_same {d' : Dodag} (hd : n.dodags.find? j = some d)
    (hp : d'.preferred = d.preferred) (hq : d'.parents = d.parents) :
    (n.putDodag j d').track i a = n.track i a := by
  rw [track_putDodag]
  split
  · rename_i h
    subst h
    simp [track, preferred?, watch?, hd, hp, hq]
  · rfl

theorem track_of_find? (hd : n.dodags.find? i = some d) :
    n.track i a = ⟨d.preferred = some a, d.parents.find? a, n.alarms.deadline? (.watch i a),
      n.alarms.deadline? (.probe i a)⟩ := by
  simp [track, preferred?, watch?, hd]

/-- The preferred parent stands in the tables of its instance. -/
theorem dodag_of_track {w : Watch} (hp : (n.track i a).preferred)
    (hw : (n.track i a).watch = some w) :
    ∃ d, n.dodags.find? i = some d ∧ d.preferred = some a ∧ d.parents.find? a = some w := by
  obtain ⟨d, hd, hpref⟩ := Option.bind_eq_some_iff.1 hp
  rw [track_of_find? hd] at hw
  exact ⟨d, hd, hpref, hw⟩

/-! ## Steps that leave all tracks alone -/

/-- No track has changed. -/
def SameTracks (n m : Node ρ) : Prop := ∀ i a, m.track i a = n.track i a

theorem SameTracks.trans {k : Node ρ} (h : n.SameTracks m) (h' : m.SameTracks k) :
    n.SameTracks k :=
  fun i a => (h' i a).trans (h i a)

theorem sameTracks_of_eq (hd : m.dodags = n.dodags) (ha : m.alarms = n.alarms) :
    n.SameTracks m :=
  fun _ _ => track_congr hd ha

theorem sameTracks_emit {e : TraceEvent} : n.SameTracks (n.emit e) := sameTracks_of_eq rfl rfl

theorem sameTracks_count {k : Counter} (h : n.count k = .ok m) : n.SameTracks m := by
  obtain ⟨-, rfl⟩ := count_eq_ok h
  exact sameTracks_of_eq rfl rfl

theorem sameTracks_send {c : Control} (h : n.send c = .ok m) : n.SameTracks m := by
  obtain ⟨outbox, counts, rfl⟩ := send_unchanged h
  exact sameTracks_of_eq rfl rfl

theorem sameTracks_sendProbe (h : n.sendProbe i a = .ok m) : n.SameTracks m := by
  obtain ⟨outbox, counts, trace, rfl⟩ := sendProbe_unchanged h
  exact sameTracks_of_eq rfl rfl

/-- An alarm that is about no parent may be armed. -/
theorem sameTracks_arm {q : Purpose} {now : Instant} {after : Span}
    (hw : ∀ i a, q ≠ .watch i a) (hp : ∀ i a, q ≠ .probe i a) :
    n.SameTracks (n.arm q now after) := by
  intro i a
  rw [track_arm, if_neg (Ne.symm (hw i a)), if_neg (Ne.symm (hp i a))]

/-- An alarm that is about no parent may fall silent. -/
theorem sameTracks_stop {q : Purpose} (hw : ∀ i a, q ≠ .watch i a) (hp : ∀ i a, q ≠ .probe i a) :
    n.SameTracks { n with alarms := n.alarms.stop q } := by
  intro i a
  rw [track_stop, if_neg (Ne.symm (hw i a)), if_neg (Ne.symm (hp i a))]

theorem sameTracks_putDodag {d' : Dodag} (hd : n.dodags.find? j = some d)
    (hp : d'.preferred = d.preferred) (hq : d'.parents = d.parents) :
    n.SameTracks (n.putDodag j d') :=
  fun _ _ => track_putDodag_of_same hd hp hq

theorem sameTracks_dioConsistent : n.SameTracks (n.dioConsistent j).state := by
  unfold dioConsistent
  split
  · exact fun _ _ => rfl
  · rename_i d hd
    exact sameTracks_putDodag hd rfl rfl

section Advertise

variable [RandomSource ρ] {p : Platform} {now : Instant}

theorem sameTracks_beginInterval (h : beginInterval p n j now = .ok m) : n.SameTracks m := by
  cases hd : n.dodags.find? j with
  | none =>
    simp only [beginInterval, hd, Except.ok.injEq] at h
    subst h
    exact fun _ _ => rfl
  | some d =>
    obtain ⟨split, d', source, hb, rfl⟩ := beginInterval_eq_ok hd h
    obtain ⟨middle, next, -, -, -, -, rfl⟩ := Dodag.begin_eq_ok hb
    refine SameTracks.trans ?_ (sameTracks_arm (by simp) (by simp))
    exact sameTracks_putDodag (n := { n with source }) hd rfl rfl

theorem sameTracks_resetDio {force : Bool} {out : Outcome (Node ρ)}
    (h : resetDio p n j force now = .ok out) : n.SameTracks out.state := by
  rcases resetDio_eq_ok h with hsame | ⟨d, k, hd, hk, hbegin⟩
  · rw [hsame]
    exact fun _ _ => rfl
  · have hput : n.SameTracks (n.putDodag j d.restart) := sameTracks_putDodag hd rfl rfl
    have hcount := hput.trans (sameTracks_count hk)
    exact hcount.trans (sameTracks_emit.trans (sameTracks_beginInterval hbegin))

theorem sameTracks_advertiseRings (h : advertiseRings p n j now = .ok m) : n.SameTracks m := by
  have hlatch : n.SameTracks n.latchReady := sameTracks_of_eq rfl rfl
  refine hlatch.trans ?_
  rcases advertiseRings_eq_ok h with ⟨-, k, hk, rfl⟩ | ⟨-, ⟨-, rfl⟩ | ⟨d, hd, ⟨-, h⟩ | ⟨-, h⟩⟩⟩
  · have hk : n.latchReady.SameTracks k := sameTracks_count hk
    exact hk.trans (sameTracks_arm (by simp) (by simp))
  · exact fun _ _ => rfl
  · rcases takeDecision_eq_ok h with ⟨-, -, k, hk, rfl⟩ | ⟨-, -, rfl⟩
    · refine SameTracks.trans ?_ (sameTracks_arm (by simp) (by simp))
      refine SameTracks.trans (SameTracks.trans ?_ sameTracks_emit) (sameTracks_send hk)
      exact sameTracks_putDodag (n := n.latchReady) hd rfl rfl
    · refine SameTracks.trans (SameTracks.trans ?_ sameTracks_emit)
        (sameTracks_arm (by simp) (by simp))
      exact sameTracks_putDodag (n := n.latchReady) hd rfl rfl
  · have hgrow : d.grow.preferred = d.preferred ∧ d.grow.parents = d.parents := by
      unfold Dodag.grow
      split <;> exact ⟨rfl, rfl⟩
    have hput := sameTracks_putDodag (n := n.latchReady) hd hgrow.1 hgrow.2
    exact hput.trans (sameTracks_beginInterval h)

/-- Joining an instance brings no parents. -/
theorem sameTracks_join {params : TrickleParams} {out : Outcome (Node ρ)}
    (h : join p n j params now = .ok out) : n.SameTracks out.state := by
  unfold join at h
  split at h
  · cases h
    exact fun _ _ => rfl
  split at h
  · cases h
    exact fun _ _ => rfl
  split at h
  · cases h
    exact fun _ _ => rfl
  rename_i hnew _
  have hnone : n.dodags.find? j = none := by
    rw [Table.contains_iff, not_exists] at hnew
    exact Option.eq_none_iff_forall_ne_some.2 hnew
  refine SameTracks.trans ?_ (sameTracks_resetDio h)
  intro i a
  rw [track_putDodag]
  split
  · rename_i hij
    subst hij
    simp [track, preferred?, watch?, hnone, Dodag.new]
  · rfl

end Advertise

section Report

variable [RandomSource ρ] {p : Platform} {now : Instant}

theorem sameTracks_scheduleDao {out : Outcome (Node ρ)} (h : scheduleDao p n j now = .ok out) :
    n.SameTracks out.state := by
  unfold scheduleDao at h
  split at h
  · cases h
    exact fun _ _ => rfl
  split at h
  · cases h
    exact sameTracks_emit
  · obtain ⟨ticks, -, h⟩ := Checked.bind_eq_ok_iff.1 h
    rw [← Except.ok.inj h]
    refine SameTracks.trans ?_ sameTracks_emit
    exact SameTracks.trans (sameTracks_of_eq rfl rfl) (sameTracks_arm (by simp) (by simp))

omit [RandomSource ρ] in
theorem sameTracks_reportRings (h : reportRings p n j now = .ok m) : n.SameTracks m := by
  have hstop (k : Node ρ) : k.SameTracks { k with alarms := k.alarms.stop (.report j) } :=
    sameTracks_stop (by simp) (by simp)
  rcases reportRings_eq_ok h with ⟨-, -, k, hk, rfl⟩ | ⟨-, ⟨-, rfl⟩ | ⟨d, -, h⟩⟩
  · refine SameTracks.trans ?_ (sameTracks_arm (by simp) (by simp))
    exact (sameTracks_count hk).trans sameTracks_emit
  · exact fun _ _ => rfl
  · rcases h with ⟨a, k, l, -, hk, hl, rfl⟩ | ⟨-, rfl⟩
    · have hsent := sameTracks_emit.trans (sameTracks_send hl)
      exact ((sameTracks_count hk).trans hsent).trans (hstop l)
    · exact sameTracks_emit.trans (hstop _)

end Report

/-! ## The maintenance ticker -/

variable {p : Platform}

theorem sameTracks_restartUpkeep {now : Instant} : n.SameTracks (restartUpkeep p n now) :=
  SameTracks.trans (sameTracks_of_eq rfl rfl) (sameTracks_arm (by simp) (by simp))

theorem sameTracks_upkeepRings (h : upkeepRings p n = .ok m) : n.SameTracks m := by
  obtain ⟨k, l, hk, hl, rfl⟩ := upkeepRings_eq_ok h
  obtain ⟨upkeep, -, -, rfl⟩ := ageRoutes_eq_ok hk
  have hsolicited : n.SameTracks l := by
    rcases solicitDetached_eq_ok hl with ⟨-, k, hk, hsend⟩ | ⟨-, rfl⟩
    · have hcount := sameTracks_count hk
      exact hcount.trans (sameTracks_emit.trans (sameTracks_send hsend))
    · exact sameTracks_of_eq rfl rfl
  intro i a
  rw [← hsolicited i a]
  simp [track, preferred?, watch?, AlarmTable.deadline?_rearm]

end Node

end TrickleNet
