import Mathlib
import TrickleNet.Proofs.Latency
import TrickleNet.Proofs.Loop
/-!
# The alarm of a window

The window of a parent and the alarm at its end are computed apart from each other, with sums that
clamp.  `Track.Covers` relates them: the alarm is not due before the window closes, and it is due
exactly then unless the answer to a solicitation moved it (`Watch.closing_answer`).  Which of the
two holds depends on how the prediction in force came about, its `Watch.Origin`.

`alarm_covers_window` says so of every run, and that no window is counted as missed before it
closes.
-/

namespace TrickleNet

open Node

/-! ## Windows -/

/-- How the prediction in force came about. -/
inductive Watch.Origin where
  /-- The window was predicted as a whole. -/
  | predicted
  /-- The answer to a solicitation brought new phases and moved the alarm. -/
  | answered
deriving DecidableEq, Repr

/-- What kind of prediction an advertisement leads to, if any. -/
def Reception.origin? : Reception → Option Watch.Origin
  | .first | .late | .repeated => some .predicted
  | .answer => some .answered
  | .early | .overlooked => none

namespace Watch

variable {w : Watch} {delay listen jitter : Span} {now e : Instant}

/-- A window that is predicted closes when its alarm is due, clamped or not. -/
theorem closes_predict (w : Watch) (delay listen jitter : Span) (now : Instant) :
    (w.predict delay listen jitter now).closes = now + (delay + listen + jitter) := by
  rw [Instant.ext_iff]
  simp only [closes, expected, predict, Instant.ticks_add, Span.ticks_add]
  omega

/-- The alarm after an answer: the window announced follows the one that was predicted. -/
theorem closing_answer (h : w.reception listen jitter now = .answer) :
    w.closing? delay listen jitter now = some (now.later (w.closes + listen) + jitter) := by
  have hnow := now.ticks_le
  have hcloses := (w.closes + listen).ticks_le
  simp only [closing?, h, Option.some.injEq, Instant.ext_iff, Instant.ticks_later,
    Instant.ticks_add, Instant.ticks_sub, Span.ticks_add] at hcloses ⊢
  omega

/-- Whenever an advertisement sets the alarm, it does not set it before the end of the window. -/
theorem closes_hear_le (h : w.closing? delay listen jitter now = some e) :
    (w.hear delay listen jitter now).closes ≤ e ∧
      ((w.reception listen jitter now).origin? = some .predicted →
        e = (w.hear delay listen jitter now).closes) := by
  cases hr : w.reception listen jitter now with
  | first | late | repeated =>
    simp only [closing?, hr, Option.some.injEq] at h
    have hcloses : (w.hear delay listen jitter now).closes = e := by
      simp only [hear, hr, closes_predict]
      exact h
    rw [hcloses]
    exact ⟨Nat.le_refl _, fun _ => rfl⟩
  | answer =>
    rw [closing_answer hr, Option.some.injEq] at h
    subst h
    simp only [hear, hr, Reception.origin?, Instant.le_iff, closes, expected, Instant.ticks_later,
      Instant.ticks_add, Option.some.injEq, reduceCtorEq, false_implies, and_true]
    omega
  | early | overlooked => simp [closing?, hr] at h

theorem closes_ask (w : Watch) : w.ask.closes = w.closes := by
  unfold ask
  split <;> rfl

theorem tracking_ask (w : Watch) : w.ask.tracking = w.tracking := by
  unfold ask
  split
  · rename_i h
    simp [tracking, h]
  · rfl

/-- An advertisement that does not set the alarm leads to no prediction. -/
theorem origin?_eq_none (h : w.closing? delay listen jitter now = none) :
    (w.reception listen jitter now).origin? = none := by
  cases hr : w.reception listen jitter now <;> simp_all [closing?, Reception.origin?]

end Watch

/-! ## Tracks -/

/-- The alarm of a window that is predicted is not due before the window closes, and is due exactly
then if the window was predicted as a whole. -/
def Track.Covers (t : Track) (origin : Option Watch.Origin) : Prop :=
  t.preferred → ∀ w ∈ t.watch, w.tracking = true →
    ∃ e, t.closing = some e ∧ w.closes ≤ e ∧ (origin = some .predicted → e = w.closes)

/-- The event is a request that predicts a window of this neighbour. -/
def Node.Event.IsPrediction (e : Event) (i : InstanceId) (a : Address) : Prop :=
  ∃ delay listen jitter now, e = .request (.scheduleReception i a delay listen jitter) now

theorem Track.covers_predict {t : Track} (w : Watch) (delay listen jitter : Span) (now : Instant)
    (origin : Option Watch.Origin) :
    Track.Covers { t with
      watch := some (w.predict delay listen jitter now)
      closing := some (now + (delay + listen + jitter)) } origin := by
  intro _ w' hw' _
  obtain rfl := Option.some.inj hw'
  have hcloses := w.closes_predict delay listen jitter now
  exact ⟨_, rfl, by rw [hcloses]; exact Nat.le_refl _, fun _ => hcloses.symm⟩

theorem Track.Covers.hear {t : Track} {w : Watch} {origin : Option Watch.Origin}
    (ht : t.Covers origin) (hp : t.preferred) (hw : t.watch = some w)
    (delay listen jitter : Span) (now : Instant) :
    (t.hear w delay listen jitter now).Covers
      ((w.reception listen jitter now).origin?.or origin) := by
  intro _ w' hw' htracking
  obtain rfl := Option.some.inj hw'
  cases hset : w.closing? delay listen jitter now with
  | some e =>
    obtain ⟨hle, hexact⟩ := Watch.closes_hear_le hset
    refine ⟨e, by simp [Track.hear, hset], hle, fun horigin => hexact ?_⟩
    cases hr : w.reception listen jitter now <;> simp_all [Reception.origin?, Watch.closing?]
  | none =>
    rw [Watch.hear_eq_self hset] at htracking ⊢
    obtain ⟨e, he, hle, hexact⟩ := ht hp w hw htracking
    refine ⟨e, by simp [Track.hear, hset, he], hle, fun horigin => hexact ?_⟩
    simpa [Watch.origin?_eq_none hset] using horigin

/-- A step keeps the alarm in accord with the window. -/
theorem Track.Step.covers {p : Platform} {i : InstanceId} {a : Address} {e : Event} {t t' : Track}
    {origin origin' : Option Watch.Origin} (h : Track.Step p i a e t t') (hsound : t.Sound)
    (ht : t.Covers origin) (he : ¬(t.preferred ∧ e.IsPrediction i a))
    (hsame : ¬(t.preferred ∧ e.IsDio i a) → origin' = origin)
    (hheard : ∀ l now w, e = .request (.command (.dioReceived i a l)) now → t.preferred →
      t.watch = some w →
        origin' = (w.reception l.listen (l.jitter + p.receptionSkew) now).origin?.or origin) :
    t'.Covers origin' := by
  cases h with
  | other _ hdio =>
    rw [hsame fun h => hdio h.1 h.2]
    exact ht
  | left | removed | dropped => exact fun hp => hp.elim
  | added hp => exact fun hp' => (hp hp').elim
  | chosen hp hw =>
    intro _ w' hw' htracking
    obtain rfl := (hsound.idle hp).2.2 w' hw'
    cases htracking
  | scheduled hp => exact (he ⟨hp, _, _, _, _, rfl⟩).elim
  | solicited hp =>
    rw [hsame (by simp [Event.IsDio])]
    intro _ w' hw' htracking
    obtain ⟨w, hw, rfl⟩ := Option.map_eq_some_iff.1 hw'
    rw [Watch.closes_ask]
    exact ht hp w hw (by rwa [Watch.tracking_ask] at htracking)
  | heard hp hw =>
    rw [hheard _ _ _ rfl hp hw]
    exact ht.hear hp hw _ _ _ _
  | missed =>
    intro _ w' hw' htracking
    obtain rfl := Option.some.inj hw'
    cases htracking
  | probed =>
    rw [hsame (by simp [Event.IsDio])]
    exact ht

/-- An alarm that is not about the neighbour leaves its track alone. -/
theorem Track.Step.eq_of_ring {p : Platform} {i : InstanceId} {a : Address} {r : Ring}
    {t t' : Track} (h : Track.Step p i a (.ring r) t t') (hwatch : r.purpose ≠ .watch i a)
    (hprobe : r.purpose ≠ .probe i a) : t' = t := by
  cases h with
  | other => rfl
  | missed => exact (hwatch rfl).elim
  | probed => exact (hprobe rfl).elim

namespace Node

variable {ρ : Type} [RandomSource ρ] {p : Platform} {n k : Node ρ} {i : InstanceId} {a : Address}
  {w : Watch} {s : Moment ρ} {ms rs : List (Moment ρ)} {now : Instant}

/-! ## Runs -/

/-- What kind of prediction the moment leads to, if any. -/
def Moment.origin? (p : Platform) (s : Moment ρ) (i : InstanceId) (a : Address) :
    Option Watch.Origin :=
  match s.event with
  | .request (.scheduleReception j b _ _ _) _ =>
    if j = i ∧ b = a ∧ s.before.preferred? i = some a then some .predicted else none
  | _ => (s.heard? p i a).bind fun u => u.taken.origin?

/-- How the predictions of a neighbour's window came about, oldest first. -/
def origins (p : Platform) (i : InstanceId) (a : Address) (ms : List (Moment ρ)) :
    List Watch.Origin :=
  ms.filterMap fun s => s.origin? p i a

theorem Moment.Valid.covers {origin : Option Watch.Origin} (h : s.Valid p)
    (hsound : s.before.SoundTracks) (ht : (s.before.track i a).Covers origin) :
    (s.after.track i a).Covers ((s.origin? p i a).or origin) := by
  by_cases he : (s.before.track i a).preferred ∧ s.event.IsPrediction i a
  · obtain ⟨hp, delay, listen, jitter, now, hevent⟩ := he
    obtain ⟨w, hw⟩ := (hsound i a).registered hp
    obtain ⟨d, hd, hpref, hfind⟩ := dodag_of_track hp hw
    cases h with
    | ring | settled => cases hevent
    | request _ hout =>
      obtain ⟨rfl, rfl⟩ := Event.request.inj hevent
      rw [← Except.ok.inj hout, track_scheduleReception hd hpref hfind, if_pos ⟨rfl, rfl⟩]
      exact Track.covers_predict w _ _ _ _ _
  · have hpref : s.before.preferred? i = some a ↔ (s.before.track i a).preferred := Iff.rfl
    have horigin : s.origin? p i a = (s.heard? p i a).bind fun u => u.taken.origin? := by
      unfold Moment.origin?
      split
      · rename_i j b delay listen jitter now hevent
        rw [if_neg, Moment.heard?_eq_none]
        · rfl
        · rintro ⟨-, l, now', hdio⟩
          rw [hevent] at hdio
          cases hdio
        · rintro ⟨rfl, rfl, hp⟩
          exact he ⟨hpref.1 hp, delay, listen, jitter, now, hevent⟩
      · rfl
    refine (h.track_step hsound i a).covers (hsound i a) ht he ?_ ?_
    · intro hnone
      rw [horigin, Moment.heard?_eq_none hnone]
      rfl
    · intro l now w hevent hp hw
      rw [horigin, Moment.heard?_eq_some hevent hp hw]
      rfl

theorem Trail.covers {origin : Option Watch.Origin} (h : Trail p n ms k) (hn : n.SoundTracks)
    (ht : (n.track i a).Covers origin) :
    (k.track i a).Covers ((origins p i a ms).getLast?.or origin) := by
  induction h generalizing origin with
  | nil hsame =>
    rw [hsame.track]
    simpa [origins] using ht
  | @cons n k s ms hsame hvalid _ ih =>
    have hsound := hsame.soundTracks hn
    rw [← hsame.track] at ht
    have hk := ih (hvalid.soundTracks hsound) (hvalid.covers hsound ht)
    have hlist : (origins p i a (s :: ms)).getLast? =
        (origins p i a ms).getLast?.or (s.origin? p i a) := by
      unfold origins
      cases ho : s.origin? p i a <;> simp [ho, List.getLast?_cons]
    rw [hlist, Option.or_assoc]
    exact hk

/-! ## While alarms ring -/

/-- As long as the window of a parent is open, no alarm that rings is about it. -/
theorem Rung.track_eq {e : Instant} (h : Rung p now n rs k) (hsound : n.SoundTracks)
    (hp : (n.track i a).preferred) (hw : (n.track i a).watch = some w)
    (htracking : w.tracking = true) (hclosing : (n.track i a).closing = some e) (hlt : now < e) :
    k.track i a = n.track i a ∧ ∀ s ∈ rs, ∀ d, s.event ≠ .ring ⟨.watch i a, d⟩ := by
  induction h with
  | start => exact ⟨rfl, by simp⟩
  | @ring n m k r alarms rs hring hm _ ih =>
    obtain ⟨hd, hle, -, -⟩ := AlarmTable.ring?_eq_some hring
    have hprobing : (n.track i a).probing = none := by
      have hiff := (hsound i a).probing_iff hp w hw
      cases hstage : w.stage <;> simp_all [Watch.tracking]
    have hwatch : r.purpose ≠ .watch i a := by
      intro hq
      rw [hq] at hd
      obtain rfl : e = r.deadline := Option.some.inj (hclosing.symm.trans hd)
      rw [Instant.le_iff] at hle
      rw [Instant.lt_iff] at hlt
      omega
    have hprobe : r.purpose ≠ .probe i a := by
      intro hq
      rw [hq] at hd
      exact absurd (hprobing.symm.trans hd) (by simp)
    have hvalid : Moment.Valid p (⟨n, .ring r, m⟩ : Moment ρ) := .ring hring hm
    have hsame : m.track i a = n.track i a :=
      (hvalid.track_step hsound i a).eq_of_ring hwatch hprobe
    obtain ⟨hk, hrs⟩ := ih (hvalid.soundTracks hsound) (by rwa [hsame]) (by rwa [hsame])
      (by rwa [hsame])
    refine ⟨hk.trans hsame, ?_⟩
    intro s hs d hevent
    rcases List.mem_cons.1 hs with rfl | hs
    · cases hevent
      exact hwatch rfl
    · exact hrs s hs d hevent

/-- While a window is predicted, its alarm is not due before the window closes.  It is due exactly
when the window closes if that was predicted as a whole; the answer to a solicitation moves it to
the end of the window announced, counted from the listen phase announced after the one that was
predicted.  So however far the alarms ring before a window closes, its parent is not found
silent. -/
theorem alarm_covers_window (p : Platform) :
    (∀ (source : ρ) (clock : Instant) (ready : Bool) (ms : List (Moment ρ)) (n : Node ρ),
      Run p (.new source clock ready) ms n → ∀ i a w, n.preferred? i = some a →
        n.watch? i a = some w → w.tracking = true →
        ∃ e, n.alarms.deadline? (.watch i a) = some e ∧ w.closes ≤ e ∧
          ((origins p i a ms).getLast? = some .predicted → e = w.closes) ∧
          ∀ now, now < w.closes →
            (∀ m, handleTimer p n now = .ok m → m.watch? i a = some w) ∧
            ∀ rs k, Rung p now n rs k → k.watch? i a = some w ∧ ∀ s ∈ rs, ¬s.Misses i a) ∧
    ∀ (n : Node ρ) i a w l now, Reachable p n → n.preferred? i = some a →
      n.watch? i a = some w → w.stage = .solicited →
        ∃ out, dioReceived p n i a l now = .ok out ∧
          out.state.alarms.deadline? (.watch i a) =
            some (now.later (w.closes + l.listen) + (l.jitter + p.receptionSkew)) := by
  constructor
  · intro source clock ready ms n hrun i a w hp hw htracking
    have hnew := soundTracks_new source clock ready
    have hsound := hrun.trail.soundTracks hnew
    have hstart : ((Node.new source clock ready).track i a).Covers none := by
      rw [track_new]
      exact fun hp => hp.elim
    obtain ⟨e, he, hle, hexact⟩ := hrun.trail.covers hnew hstart hp w hw htracking
    have hopen (now : Instant) (hnow : now < w.closes) : now < e := by
      rw [Instant.lt_iff] at hnow ⊢
      rw [Instant.le_iff] at hle
      omega
    have hrung (now : Instant) (hnow : now < w.closes) (rs : List (Moment ρ)) (k : Node ρ)
        (h : Rung p now n rs k) : k.watch? i a = some w ∧ ∀ s ∈ rs, ¬s.Misses i a := by
      obtain ⟨hsame, hrs⟩ := h.track_eq hsound hp hw htracking he (hopen now hnow)
      refine ⟨(congrArg Track.watch hsame).trans hw, ?_⟩
      rintro s hs ⟨⟨d, hd⟩, -⟩
      exact hrs s hs d hd
    refine ⟨e, he, hle, fun horigin => hexact (by simp [horigin]), ?_⟩
    intro now hnow
    refine ⟨?_, hrung now hnow⟩
    intro m hm
    obtain ⟨ms, hms⟩ := rings_of_handleTimer hm
    obtain ⟨rs, -, h, -⟩ := hms.rung
    exact (hrung now hnow rs m h).1
  · intro n i a w l now hn hp hw hstage
    obtain ⟨d, hd, hpref, hfind⟩ := dodag_of_track (n := n) hp hw
    have hanswer : w.reception l.listen (l.jitter + p.receptionSkew) now = .answer := by
      simp [Watch.reception, hstage]
    have hout : dioReceived p n i a l now = _ := dioReceived_eq hd hpref hfind
    simp only [hanswer] at hout
    refine ⟨_, hout, ?_⟩
    have htrack := track_dioReceived (i := i) (a := a) hd hpref hfind hout
    rw [if_pos ⟨rfl, rfl⟩] at htrack
    refine (congrArg Track.closing htrack).trans ?_
    rw [Track.hear, Watch.closing_answer hanswer]
    rfl

/-- Requests to a node whose parent is heard at boot, when it announces a window that opens after 10
ms and phases of 10 ms, and is solicited 5 ms later. -/
def soonSolicited : List (Operation × Instant) :=
  [(.join 1 { minExponent := 30 }, .zero), (.addParent 1 (.linkLocal 2), .zero),
    (.command (.setPreferred 1 (some (.linkLocal 2))), .zero),
    (.command (.dioReceived 1 (.linkLocal 2) ⟨.ofTicks 10, .ofTicks 10, .ofTicks 10⟩), .zero),
    (.command (.solicit 1), .ofTicks 5)]

/-- The window closes after 430 ms, with its alarm, and the parent still counts as solicited when
the alarms ring a tick before.  An answer after 12 ms moves the alarm to 850 ms. -/
theorem alarm_covers_window_solicited :
    ∃ (ms : List (Moment Generator)) (n m : Node Generator) (w : Watch)
      (out : Outcome (Node Generator)),
      record .millis soonSolicited (.new (.fixed 0) .zero true) = .ok (ms, n) ∧
      n.preferred? 1 = some (.linkLocal 2) ∧ n.watch? 1 (.linkLocal 2) = some w ∧
      w.tracking = true ∧ w.stage = .solicited ∧ w.closes = .ofTicks 430 ∧
      (origins .millis 1 (.linkLocal 2) ms).getLast? = some .predicted ∧
      n.alarms.deadline? (.watch 1 (.linkLocal 2)) = some (.ofTicks 430) ∧
      handleTimer .millis n (.ofTicks 429) = .ok m ∧ m.watch? 1 (.linkLocal 2) = some w ∧
      dioReceived .millis n 1 (.linkLocal 2) ⟨.ofTicks 5, .ofTicks 10, .ofTicks 10⟩ (.ofTicks 12) =
        .ok out ∧
      out.state.alarms.deadline? (.watch 1 (.linkLocal 2)) = some (.ofTicks 850) := by
  have hrun : ∀ ms (n : Node Generator),
      record .millis soonSolicited (.new (.fixed 0) .zero true) = .ok (ms, n) →
        Run .millis (.new (.fixed 0) .zero true) ms n := fun ms n h => Run.start.record h
  obtain ⟨hcovers, hanswer⟩ := alarm_covers_window (ρ := Generator) .millis
  obtain ⟨e, he, -, hexact, hquiet⟩ :=
    hcovers _ _ _ _ _ (hrun _ _ rfl) 1 (.linkLocal 2) _ rfl rfl rfl
  obtain ⟨out, hout, hmoved⟩ := hanswer _ 1 (.linkLocal 2) _
    ⟨.ofTicks 5, .ofTicks 10, .ofTicks 10⟩ (.ofTicks 12) ⟨_, _, _, _, hrun _ _ rfl⟩ rfl rfl rfl
  refine ⟨_, _, _, _, out, rfl, rfl, rfl, rfl, rfl, by decide, rfl, ?_, rfl, ?_, hout, ?_⟩
  · rw [he, hexact rfl]
    decide
  · exact (hquiet (.ofTicks 429) (by decide)).1 _ rfl
  · rw [hmoved]
    decide

end Node

end TrickleNet
