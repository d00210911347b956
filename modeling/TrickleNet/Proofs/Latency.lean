import Mathlib
import TrickleNet.Proofs.Hearing
import TrickleNet.Proofs.Windows
/-!
# What a latency sample measures

An advertisement that comes after it was expected is a sample of its parent's lateness.  What was
expected goes back to the last advertisement that replaced the prediction (`Reception.replaces`):
its arrival and the delay it announced say when the window opens.  The listen phase may be more
recent, as the answer to a solicitation keeps the window open and announces new phases for it.  An
advertisement that comes before it was expected, and announces an interval of another length,
leaves the window as it is.

An advertisement that comes exactly when it was expected is another matter.  If it announces an
interval of another length it is overlooked (`Reception.overlooked`), and the window that it was in
time for stays in force although a new one was announced.  Samples that are measured against such a
window are left out of `Node.sample_is_lateness`.

`Node.receptions` lists the advertisements of a run with how each was taken, and `Watch.Foretold`
says that a record stems from them in this way.
-/

namespace TrickleNet

open Node

/-- Whether an advertisement that is taken so replaces the prediction. -/
def Reception.replaces : Reception → Bool
  | .first | .late | .repeated => true
  | .answer | .early | .overlooked => false

/-- An advertisement of the preferred parent. -/
structure Heard where
  /-- How it was taken. -/
  taken : Reception
  /-- What it announced. -/
  announced : Lookahead
  /-- When it arrived. -/
  time : Instant
deriving DecidableEq, Repr

/-- The listen phase in force after advertisements that did not replace the prediction.  Of these
only answers to solicitations bring new phases. -/
def Heard.listenAfter (u : Heard) (later : List Heard) : Span :=
  later.foldl (fun listen v => if v.taken = .answer then v.announced.listen else listen)
    u.announced.listen

namespace Watch

variable {w : Watch} {hs : List Heard} {l : Lookahead} {jitter : Span} {now : Instant}

/-- The window opens as the last advertisement that replaced the prediction announced, and the
listen phase is the one in force. -/
def Foretold (w : Watch) (hs : List Heard) : Prop :=
  ∃ before u later, hs = before ++ u :: later ∧ u.taken.replaces = true ∧
    (∀ v ∈ later, v.taken.replaces = false) ∧ w.opens = u.time + u.announced.delay ∧
    w.listen = u.listenAfter later

/-- One more advertisement that does not replace the prediction. -/
theorem Foretold.snoc {w' : Watch} {v : Heard} (h : w.Foretold hs) (hv : v.taken.replaces = false)
    (hopens : w'.opens = w.opens)
    (hlisten : w'.listen = if v.taken = .answer then v.announced.listen else w.listen) :
    w'.Foretold (hs ++ [v]) := by
  obtain ⟨before, u, later, rfl, hu, hlater, hopens', hlisten'⟩ := h
  refine ⟨before, u, later ++ [v], by simp, hu, ?_, hopens.trans hopens', ?_⟩
  · intro x hx
    rcases List.mem_append.1 hx with hx | hx
    · exact hlater x hx
    · obtain rfl := List.mem_singleton.1 hx
      exact hv
  · rw [hlisten, hlisten', Heard.listenAfter, Heard.listenAfter, List.foldl_append]
    rfl

theorem foretold_hear (h : w.tracking = true → w.Foretold hs) :
    (w.hear l.delay l.listen jitter now).Foretold
      (hs ++ [⟨w.reception l.listen jitter now, l, now⟩]) := by
  have hfirst := w.reception_eq_first_iff l.listen jitter now
  cases hr : w.reception l.listen jitter now with
  | first | late | repeated =>
    refine ⟨hs, _, [], rfl, rfl, by simp, ?_, ?_⟩ <;> simp [hear, hr, predict, Heard.listenAfter]
  | answer =>
    have hw : w.Foretold hs := h (by simpa [hr] using hfirst)
    exact hw.snoc rfl (by simp [hear, hr]) (by simp [hear, hr])
  | early | overlooked =>
    have hw : w.Foretold hs := h (by simpa [hr] using hfirst)
    exact hw.snoc rfl (by simp [hear, hr]) (by simp [hear, hr])

/-- Asking for an advertisement does not change what is expected. -/
theorem foretold_ask : w.ask.Foretold hs ↔ w.Foretold hs := by
  unfold ask
  split <;> rfl

end Watch

/-- A window that is predicted for the preferred parent stems from what was heard. -/
def Track.Foretold (t : Track) (hs : List Heard) : Prop :=
  t.preferred → ∀ w ∈ t.watch, w.tracking = true → w.Foretold hs

/-- A step keeps what is expected in accord with what was heard. -/
theorem Track.Step.foretold {p : Platform} {i : InstanceId} {a : Address}
    {e : Node.Event} {t t' : Track} {hs hs' : List Heard} (h : Track.Step p i a e t t')
    (hsound : t.Sound) (he : e.predicts = false) (ht : t.Foretold hs)
    (hsame : ¬(t.preferred ∧ e.IsDio i a) → hs' = hs)
    (hheard : ∀ l now w, e = .request (.command (.dioReceived i a l)) now → t.preferred →
      t.watch = some w →
        hs' = hs ++ [⟨w.reception l.listen (l.jitter + p.receptionSkew) now, l, now⟩]) :
    t'.Foretold hs' := by
  cases h with
  | other halarm hdio =>
    rw [hsame fun h => hdio h.1 h.2]
    exact ht
  | left => exact fun hp => hp.elim
  | removed => exact fun hp => hp.elim
  | dropped => exact fun hp => hp.elim
  | added hp => exact fun hp' => (hp hp').elim
  | chosen hp hw =>
    intro _ w' hw' htracking
    obtain rfl := (hsound.idle hp).2.2 w' hw'
    cases htracking
  | scheduled => cases he
  | solicited hp =>
    rw [hsame (by simp [Event.IsDio])]
    intro _ w' hw' htracking
    obtain ⟨w, hw, rfl⟩ := Option.map_eq_some_iff.1 hw'
    refine Watch.foretold_ask.2 (ht hp w hw ?_)
    unfold Watch.ask at htracking
    split at htracking <;> simp_all [Watch.tracking]
  | heard hp hw =>
    rw [hheard _ _ _ rfl hp hw]
    intro _ w' hw' _
    obtain rfl := Option.some.inj hw'
    exact Watch.foretold_hear (ht hp _ hw)
  | missed =>
    intro _ w' hw' htracking
    obtain rfl := Option.some.inj hw'
    cases htracking
  | probed =>
    rw [hsame (by simp [Event.IsDio])]
    exact ht

namespace Node

variable {ρ : Type} {p : Platform} {n k : Node ρ} {i : InstanceId} {a : Address} {l : Lookahead}
  {now : Instant} {s : Moment ρ} {ms : List (Moment ρ)} {hs : List Heard}

/-! ## The advertisements of a run -/

/-- The advertisement of the preferred parent that the moment is, if it is one. -/
def Moment.heard? (p : Platform) (s : Moment ρ) (i : InstanceId) (a : Address) : Option Heard :=
  match s.event with
  | .request (.command (.dioReceived j b l)) now =>
    if j = i ∧ b = a ∧ s.before.preferred? i = some a then
      (s.before.watch? i a).map fun w =>
        ⟨w.reception l.listen (l.jitter + p.receptionSkew) now, l, now⟩
    else none
  | _ => none

/-- The advertisements of a parent that arrived while it was preferred, oldest first. -/
def receptions (p : Platform) (i : InstanceId) (a : Address) (ms : List (Moment ρ)) : List Heard :=
  ms.filterMap fun s => s.heard? p i a

theorem Moment.heard?_eq_none (h : ¬((s.before.track i a).preferred ∧ s.event.IsDio i a)) :
    s.heard? p i a = none := by
  unfold Moment.heard?
  split
  · rename_i j b l now hevent
    split
    · rename_i hdio
      obtain ⟨rfl, rfl, hp⟩ := hdio
      exact (h ⟨hp, l, now, hevent⟩).elim
    · rfl
  · rfl

theorem Moment.heard?_eq_some {w : Watch}
    (hevent : s.event = .request (.command (.dioReceived i a l)) now)
    (hp : (s.before.track i a).preferred) (hw : (s.before.track i a).watch = some w) :
    s.heard? p i a = some ⟨w.reception l.listen (l.jitter + p.receptionSkew) now, l, now⟩ := by
  have hpref : s.before.preferred? i = some a := hp
  have hwatch : s.before.watch? i a = some w := hw
  simp [Moment.heard?, hevent, hpref, hwatch]

variable [RandomSource ρ]

theorem Moment.Valid.foretold (h : s.Valid p) (hsound : s.before.SoundTracks)
    (hindirect : s.Indirect) (ht : (s.before.track i a).Foretold hs) :
    (s.after.track i a).Foretold (hs ++ (s.heard? p i a).toList) := by
  refine (h.track_step hsound i a).foretold (hsound i a) hindirect ht ?_ ?_
  · intro hnone
    rw [Moment.heard?_eq_none hnone]
    simp
  · intro l now w hevent hp hw
    rw [Moment.heard?_eq_some hevent hp hw]
    rfl

/-- The windows of a run stem from what was heard in it, if no request predicts windows. -/
theorem Trail.foretold (h : Trail p n ms k) (hms : ∀ s ∈ ms, s.Indirect) (hn : n.SoundTracks)
    (ht : (n.track i a).Foretold hs) : (k.track i a).Foretold (hs ++ receptions p i a ms) := by
  induction h generalizing hs with
  | nil hsame =>
    rw [hsame.track]
    simpa [receptions] using ht
  | @cons n k s ms hsame hvalid _ ih =>
    have hsound := hsame.soundTracks hn
    rw [← hsame.track] at ht
    have hafter := hvalid.foretold hsound (hms s List.mem_cons_self) ht
    have hk := ih (fun s hmem => hms s (List.mem_cons_of_mem _ hmem)) (hvalid.soundTracks hsound)
      hafter
    have hlist : receptions p i a (s :: ms) = (s.heard? p i a).toList ++ receptions p i a ms := by
      unfold receptions
      cases hheard : s.heard? p i a <;> simp [hheard]
    rw [hlist, ← List.append_assoc]
    exact hk

/-! ## Samples -/

omit [RandomSource ρ] in
/-- An advertisement hands out a sample only if it comes after it was expected. -/
theorem exists_of_sample {out : Outcome (Node ρ)} {latency : Span}
    (h : dioReceived p n i a l now = .ok out)
    (hsample : out.state.samples = n.samples ++ [⟨i, a, latency⟩]) :
    ∃ w, (n.track i a).preferred ∧ (n.track i a).watch = some w ∧ w.tracking = true ∧
      w.expected < now ∧ latency = now - w.expected := by
  by_cases hp : (n.track i a).preferred ∧ (n.track i a).watch.isSome
  swap
  · rw [dioReceived_of_not_preferred hp h] at hsample
    simp at hsample
  obtain ⟨w, hw⟩ := Option.isSome_iff_exists.1 hp.2
  obtain ⟨d, hd, hpref, hfind⟩ := dodag_of_track hp.1 hw
  rw [samples_dioReceived hd hpref hfind h] at hsample
  split at hsample
  · rename_i hlate
    obtain ⟨hstage, hlt⟩ := Watch.reception_eq_late_iff.1 hlate
    exact ⟨w, hp.1, hw, by simp [Watch.tracking, hstage], hlt, by simpa using hsample.symm⟩
  · simp at hsample

/-- A sample is the lateness of an advertisement with respect to the prediction in force: the window
opens as the last advertisement announced that replaced the prediction, and the listen phase is that
of the last answer to a solicitation since, or else its own.  Nothing is said if an advertisement
was overlooked since then.  If the advertisement right before replaced the prediction, the sample is
the lateness with respect to what that one announced. -/
theorem sample_is_lateness {source : ρ} {clock : Instant} {ready : Bool}
    {pre post : List (Moment ρ)} {latency : Span} (hrun : Run p (.new source clock ready) ms n)
    (hms : ∀ m ∈ ms, m.Indirect) (hsplit : ms = pre ++ s :: post)
    (hevent : s.event = .request (.command (.dioReceived i a l)) now)
    (hsample : s.after.samples = s.before.samples ++ [⟨i, a, latency⟩]) :
    (∃ before u later, receptions p i a pre = before ++ u :: later ∧ u.taken.replaces = true ∧
      (∀ v ∈ later, v.taken.replaces = false) ∧
      ((∀ v ∈ later, v.taken ≠ .overlooked) →
        now.ticks = u.time.ticks + u.announced.delay.ticks + (u.listenAfter later).ticks +
          latency.ticks)) ∧
    ∀ u ∈ (receptions p i a pre).getLast?, u.taken.replaces = true →
      now.ticks = u.time.ticks + u.announced.delay.ticks + u.announced.listen.ticks +
        latency.ticks := by
  subst hsplit
  obtain ⟨k, hpre, hrest⟩ := hrun.trail.split
  obtain _ | ⟨hsame, hvalid, -⟩ := hrest
  have hnew := soundTracks_new source clock ready
  have hstart : ((Node.new source clock ready).track i a).Foretold [] := by
    rw [track_new]
    exact fun hp => hp.elim
  have hforetold := hpre.foretold (fun m hm => hms m (by simp [hm])) hnew hstart
  rw [← hsame.track, List.nil_append] at hforetold
  obtain ⟨w, hp, hw, htracking, hlt, hlatency⟩ : ∃ w, (s.before.track i a).preferred ∧
      (s.before.track i a).watch = some w ∧ w.tracking = true ∧ w.expected < now ∧
        latency = now - w.expected := by
    cases hvalid with
    | ring | settled => cases hevent
    | request _ hout =>
      cases hevent
      exact exists_of_sample hout hsample
  obtain ⟨before, u, later, hheard, hu, hlater, hopens, hlisten⟩ := hforetold hp w hw htracking
  have hticks : now.ticks = u.time.ticks + u.announced.delay.ticks +
      (u.listenAfter later).ticks + latency.ticks := by
    -- The instant expected lies before another one, so no sum in it was clamped.
    have := now.ticks_le
    rw [Instant.lt_iff, Watch.expected, hopens, hlisten] at hlt
    rw [hlatency, Instant.ticks_sub, Watch.expected, hopens, hlisten]
    simp only [Instant.ticks_add] at hlt ⊢
    omega
  refine ⟨⟨before, u, later, hheard, hu, hlater, fun _ => hticks⟩, ?_⟩
  intro v hv hreplaces
  rw [hheard] at hv
  rcases later.eq_nil_or_concat' with rfl | ⟨later, x, rfl⟩
  · obtain rfl : u = v := by simpa using hv
    exact hticks
  · have hconcat : before ++ u :: (later ++ [x]) = (before ++ u :: later) ++ [x] := by simp
    obtain rfl : x = v := by
      rw [hconcat, List.getLast?_concat] at hv
      exact Option.some.inj hv
    rw [hlater x (by simp)] at hreplaces
    cases hreplaces

/-- Requests to a node whose parent is heard at boot, when it announces a window that opens after 10
ms and a listen phase of 10 ms, answers a solicitation after 12 ms, when it announces one that opens
5 ms later, and is heard again after 30 ms. -/
def answered : List (Operation × Instant) :=
  [(.join 1 { minExponent := 30 }, .zero), (.addParent 1 (.linkLocal 2), .zero),
    (.command (.setPreferred 1 (some (.linkLocal 2))), .zero),
    (.command (.dioReceived 1 (.linkLocal 2) ⟨.ofTicks 10, .ofTicks 10, .ofTicks 10⟩), .zero),
    (.command (.solicit 1), .ofTicks 5),
    (.command (.dioReceived 1 (.linkLocal 2) ⟨.ofTicks 5, .ofTicks 10, .ofTicks 10⟩), .ofTicks 12),
    (.command (.dioReceived 1 (.linkLocal 2) {}), .ofTicks 30)]

/-- The answer keeps the window that opens after 10 ms, so the parent is late by 10 ms. -/
theorem sample_is_lateness_after_answer :
    ∃ (pre : List (Moment Generator)) (s : Moment Generator) (n : Node Generator),
      record .millis answered (.new (.fixed 0) .zero true) = .ok (pre ++ [s], n) ∧
      s.event = .request (.command (.dioReceived 1 (.linkLocal 2) {})) (.ofTicks 30) ∧
      s.after.samples = s.before.samples ++ [⟨1, .linkLocal 2, .ofTicks 10⟩] ∧
      (∀ v ∈ receptions .millis 1 (.linkLocal 2) pre, v.taken ≠ .overlooked) ∧
      ∃ before u later, receptions .millis 1 (.linkLocal 2) pre = before ++ u :: later ∧
        u.taken.replaces = true ∧ (∀ v ∈ later, v.taken.replaces = false) ∧
        Instant.ticks (.ofTicks 30) = u.time.ticks + u.announced.delay.ticks +
          (u.listenAfter later).ticks + Span.ticks (.ofTicks 10) := by
  obtain ⟨pre, s, n, hrecord, hms, hevent, hsample, hheeded⟩ :
      ∃ (pre : List (Moment Generator)) (s : Moment Generator) (n : Node Generator),
        record .millis answered (.new (.fixed 0) .zero true) = .ok (pre ++ [s], n) ∧
        (∀ m ∈ pre ++ [s], m.Indirect) ∧
        s.event = .request (.command (.dioReceived 1 (.linkLocal 2) {})) (.ofTicks 30) ∧
        s.after.samples = s.before.samples ++ [⟨1, .linkLocal 2, .ofTicks 10⟩] ∧
        ∀ v ∈ receptions .millis 1 (.linkLocal 2) pre, v.taken ≠ .overlooked :=
    ⟨[_, _, _, _, _, _], _, _, rfl, by decide, rfl, by decide +kernel, by decide +kernel⟩
  obtain ⟨⟨before, u, later, hheard, hu, hlater, hlate⟩, -⟩ :=
    sample_is_lateness (Run.start.record hrecord) hms rfl hevent hsample
  refine ⟨pre, s, n, hrecord, hevent, hsample, hheeded, before, u, later, hheard, hu, hlater, ?_⟩
  exact hlate fun v hv => hheeded v (by simp [hheard, hv])

/-- A sample is not always the lateness with respect to what the parent announced last. -/
theorem sample_not_lateness_to_last_announcement :
    ¬∀ (pre post : List (Moment Generator)) (s : Moment Generator) (n : Node Generator)
      (l : Lookahead) (now : Instant) (latency : Span),
      Run .millis (.new (.fixed 0) .zero true) (pre ++ s :: post) n → (∀ m ∈ pre, m.Indirect) →
        s.event = .request (.command (.dioReceived 1 (.linkLocal 2) l)) now →
        s.after.samples = s.before.samples ++ [⟨1, .linkLocal 2, latency⟩] →
          ∀ u ∈ (receptions .millis 1 (.linkLocal 2) pre).getLast?,
            now.ticks = u.time.ticks + u.announced.delay.ticks + u.announced.listen.ticks +
              latency.ticks := by
  intro h
  have hrun : ∀ ms (n : Node Generator),
      record .millis answered (.new (.fixed 0) .zero true) = .ok (ms, n) →
        Run .millis (.new (.fixed 0) .zero true) ms n := fun ms n h => Run.start.record h
  have hlast :=
    h [_, _, _, _, _, _] [] _ _ {} (.ofTicks 30) (.ofTicks 10) (hrun _ _ rfl) (by decide)
      rfl (by decide +kernel) ⟨.answer, ⟨.ofTicks 5, .ofTicks 10, .ofTicks 10⟩, .ofTicks 12⟩ rfl
  exact absurd hlast (by decide)

end Node

end TrickleNet
