import Mathlib
import TrickleNet.Proofs.Course
import TrickleNet.Proofs.Footprint
import TrickleNet.Proofs.Rang
/-!
# Reports are debounced

Whether a report of an instance is pending is nowhere kept but in its alarm, which is armed from the
request until the report is made.  Requests, the alarm itself and a leave are all that has to do
with that alarm (`Event.eq_of_mem_footprint`), and `Moment.ReportCourse` says what each of them does
to it.

So every request that is accepted, and not merged with one that is pending, comes to one of three
ends: the report is made, the instance is left before that, or the report is pending still
(`Trail.reports_balance`).  That a report is put off while the link-local address is not usable is
none of them.
-/

namespace TrickleNet

/-- The delay of a report that is requested now lies in `[L/2, L/2 + L)`, where `L` is the latency
of the platform.  Only a latency of zero leaves that interval empty. -/
def Platform.ReportDelay (p : Platform) (delay : Span) : Prop :=
  p.reportLatency.ticks / 2 ≤ delay.ticks ∧
    (0 < p.reportLatency.ticks →
      delay.ticks < p.reportLatency.ticks / 2 + p.reportLatency.ticks)

namespace Node

variable {ρ : Type} {p : Platform} {n m k : Node ρ} {x : Moment ρ} {i : InstanceId} {d : Dodag}
  {msg : Control} {now e : Instant} {ms : List (Moment ρ)}

namespace Moment

/-- A report is requested of an instance that is joined, and none is pending. -/
def requestsReport (x : Moment ρ) (i : InstanceId) : Bool :=
  match x.event with
  | .request (.command (.scheduleDao j)) _ =>
    i = j && x.before.dodags.contains i && !x.before.alarms.isArmed (.report i)
  | _ => false

/-- The alarm of the report rings. -/
def ringsReport (x : Moment ρ) (i : InstanceId) : Bool :=
  match x.event with
  | .ring ⟨.report j, _⟩ => i = j
  | _ => false

/-- The alarm of the report rings, and the report is not put off. -/
def completesReport (x : Moment ρ) (i : InstanceId) : Bool :=
  x.ringsReport i && (x.before.mayAdvertise || x.before.addressReady)

/-- The instance is left while a report of it is pending. -/
def dropsReport (x : Moment ρ) (i : InstanceId) : Bool :=
  x.leaves i && x.before.alarms.isArmed (.report i)

theorem event_of_requestsReport (h : x.requestsReport i = true) :
    ∃ now, x.event = .request (.command (.scheduleDao i)) now := by
  unfold requestsReport at h
  split at h
  · rename_i j now hevent
    simp only [Bool.and_eq_true, decide_eq_true_eq] at h
    exact ⟨now, by rw [hevent, h.1.1]⟩
  · cases h

theorem ringsReport_iff : x.ringsReport i = true ↔ ∃ due, x.event = .ring ⟨.report i, due⟩ := by
  constructor
  · intro h
    unfold ringsReport at h
    split at h
    · rename_i j due hevent
      exact ⟨due, by rw [hevent, of_decide_eq_true h]⟩
    · cases h
  · rintro ⟨due, hevent⟩
    rw [ringsReport, hevent]
    exact decide_eq_true rfl

end Moment

/-! ## What has to do with a report -/

/-- Requests to report, the alarm of the report and a leave are all that may touch that alarm. -/
theorem Event.eq_of_mem_footprint {e : Event} (h : .report i ∈ e.footprint.alarms) :
    (∃ now, e = .request (.command (.scheduleDao i)) now) ∨
      (∃ now, e = .request (.leave i) now) ∨ ∃ due, e = .ring ⟨.report i, due⟩ := by
  cases e with
  | request o now =>
    cases o with
    | leave j =>
      have hij : i = j := Option.some.inj h
      exact .inr (.inl ⟨now, by rw [hij]⟩)
    | command c =>
      cases c with
      | scheduleDao j =>
        have hij : i = j := Purpose.report.inj h
        exact .inl ⟨now, by rw [hij]⟩
      | resetDio | dioConsistent | dioReceived | setPreferred | solicit | restartUpkeep => simp at h
    | join | addParent | removeParent | scheduleReception | handleTimer => simp at h
  | ring r =>
    obtain ⟨q, due⟩ := r
    cases q with
    | report j =>
      have hij : i = j := Purpose.report.inj h
      exact .inr (.inr ⟨due, by rw [hij]⟩)
    | upkeep | advertise | watch | probe => simp at h
  | settled => simp at h

/-- Where the alarm of the report cannot be touched, nothing happens to the report. -/
theorem Moment.idle_of_footprint (h : .report i ∉ x.event.footprint.alarms) :
    x.requestsReport i = false ∧ x.ringsReport i = false ∧ x.leaves i = false := by
  refine ⟨?_, ?_, ?_⟩ <;> rw [Bool.eq_false_iff] <;> intro htrue <;> apply h
  · obtain ⟨now, hevent⟩ := event_of_requestsReport htrue
    rw [hevent]
    rfl
  · obtain ⟨due, hevent⟩ := ringsReport_iff.1 htrue
    rw [hevent]
    rfl
  · obtain ⟨now, hevent⟩ := leaves_iff.1 htrue
    rw [hevent]
    rfl

/-! ## Requests -/

/-- An instance that was left has no report pending. -/
theorem Orderly.report_of_leave (hn : n.Orderly p) :
    (n.leave i).state.alarms.deadline? (.report i) = none := by
  unfold Node.leave
  split
  · exact AlarmTable.deadline?_removeInstance.trans (if_pos rfl)
  · rename_i hnot
    by_contra hdue
    obtain ⟨e, he⟩ := Option.ne_none_iff_exists'.1 hdue
    exact hnot (hn.owned _ (AlarmTable.holds_of_deadline? he))

section Draws

variable [RandomSource ρ]

/-- A request to report is refused, merged with the one that is pending, or sets the alarm. -/
theorem scheduleDao_eq_ok {out : Outcome (Node ρ)} (h : scheduleDao p n i now = .ok out) :
    (n.dodags.contains i = false ∧ out = .refused .unknownInstance n) ∨
      n.dodags.contains i = true ∧
        (n.alarms.isArmed (.report i) = true ∧ out = .granted (n.emit (.daoAlreadyScheduled i)) ∨
          n.alarms.isArmed (.report i) = false ∧ ∃ source delay, p.ReportDelay delay ∧
            out = .granted ((({ n with source } : Node ρ).arm (.report i) now delay).emit
              (.daoScheduled i delay))) := by
  unfold scheduleDao at h
  split at h
  · rename_i hnot
    exact .inl ⟨by simpa using hnot, (Except.ok.inj h).symm⟩
  rename_i hjoined
  refine .inr ⟨by simpa using hjoined, ?_⟩
  split at h
  · rename_i harmed
    exact .inl ⟨harmed, (Except.ok.inj h).symm⟩
  · rename_i hsilent
    rcases hdraw : RandomSource.draw n.source 0 p.reportLatency.ticks with ⟨offset, source⟩
    have hoffset := RandomSource.draw_lt n.source 0 p.reportLatency.ticks
    simp only [hdraw] at h hoffset
    obtain ⟨ticks, hticks, h⟩ := Checked.bind_eq_ok_iff.1 h
    obtain ⟨rfl, hlt⟩ := addChecked_eq_ok_iff.1 hticks
    refine .inr ⟨by simpa using hsilent, source, _, ?_, (Except.ok.inj h).symm⟩
    simp only [wordLimit64] at hlt
    simp only [Platform.ReportDelay, Span.ticks_ofTicks, maxTicks]
    constructor
    · omega
    · intro hpos
      have := hoffset hpos
      omega

/-- A request that finds a report pending changes nothing but the trace. -/
theorem scheduleDao_of_armed (hjoined : n.dodags.contains i = true)
    (harmed : n.alarms.isArmed (.report i) = true) :
    scheduleDao p n i now = .ok (.granted (n.emit (.daoAlreadyScheduled i))) := by
  simp [scheduleDao, hjoined, harmed]

end Draws

/-! ## The alarm -/

/-- A message is handed to the outbox, which takes it unless too many messages wait. -/
structure Hands (n m : Node ρ) (msg : Control) : Prop where
  outbox : m.outbox.toList =
    if n.outbox.hasRoom then n.outbox.toList ++ [msg] else n.outbox.toList
  dropped : m.counts.controlDropped = n.counts.controlDropped + if n.outbox.hasRoom then 0 else 1

theorem send_hands (h : n.send msg = .ok m) : n.Hands m msg := by
  rcases send_eq_ok h with ⟨hroom, rfl⟩ | ⟨hroom, h⟩
  · refine ⟨Mailbox.toList_offer n.outbox msg, ?_⟩
    rw [hroom]
    rfl
  · obtain ⟨-, rfl⟩ := count_eq_ok h
    constructor <;> rw [hroom] <;> rfl

/-- A message that is handed over may be counted as lost, and counts as nothing else. -/
theorem send_counts {c : Counter} (h : n.send msg = .ok m) (hc : c ≠ .controlDropped) :
    m.counts.get c = n.counts.get c := by
  have hconfined : n.Confined { counters := {.controlDropped}, messages := {msg} } m :=
    (Confined.refl n).send rfl rfl h
  exact hconfined.counts c hc

/-- A report goes to the parent that is preferred, or nowhere if none is. -/
def MakesReport (n m : Node ρ) (i : InstanceId) (d : Dodag) : Prop :=
  match d.preferred with
  | some a => m.counts.daoSent = n.counts.daoSent + 1 ∧ n.Hands m (.dao i a d.params.lifetime)
  | none => m.counts.daoSent = n.counts.daoSent ∧ m.outbox = n.outbox

/-- A report is put off, and tried again later. -/
structure PutsOffReport (p : Platform) (n m : Node ρ) (i : InstanceId) (e : Instant) : Prop where
  due : m.alarms.deadline? (.report i) = some (e + p.postponeDelay)
  postponed : m.counts.daoPostponed = n.counts.daoPostponed + 1
  sent : m.counts.daoSent = n.counts.daoSent
  outbox : m.outbox = n.outbox

/-! ## The course of a report -/

/-- What happens at a moment to the report of an instance, which is due at `t` before it and at `t'`
after it if it is pending. -/
inductive Moment.ReportCourse (p : Platform) (x : Moment ρ) (i : InstanceId) :
    (t t' : Option Instant) → Prop
  /-- Nothing, or a request is merged with the one that is pending. -/
  | idle {t : Option Instant} : x.requestsReport i = false → x.ringsReport i = false →
      x.dropsReport i = false → ReportCourse p x i t t
  /-- It is requested. -/
  | requested {now : Instant} {delay : Span} :
      x.event = .request (.command (.scheduleDao i)) now → x.requestsReport i = true →
        p.ReportDelay delay → ReportCourse p x i none (some (now + delay))
  /-- It is put off. -/
  | postponed {e : Instant} : x.event = .ring ⟨.report i, e⟩ → x.completesReport i = false →
      ReportCourse p x i (some e) (some (e + p.postponeDelay))
  /-- It is made. -/
  | completed {e : Instant} : x.event = .ring ⟨.report i, e⟩ → x.completesReport i = true →
      ReportCourse p x i (some e) none
  /-- Its instance is left. -/
  | dropped {now e : Instant} : x.event = .request (.leave i) now → x.dropsReport i = true →
      ReportCourse p x i (some e) none

/-- A report that is pending afterwards was pending before or is requested, and the other way round
unless it is made or dropped. -/
theorem Moment.ReportCourse.balance {t t' : Option Instant} (h : x.ReportCourse p i t t') :
    (if x.requestsReport i then 1 else 0) + (if t.isSome then 1 else 0) =
      (if x.completesReport i then 1 else 0) + (if x.dropsReport i then 1 else 0) +
        if t'.isSome then 1 else 0 := by
  cases h with
  | idle hrequests hrings hdrops => simp [completesReport, hrequests, hrings, hdrops]
  | requested hevent hrequests =>
    simp [completesReport, ringsReport, dropsReport, leaves, Event.signal?, hevent, hrequests]
  | postponed hevent hcompletes | completed hevent hcompletes =>
    simp [requestsReport, dropsReport, leaves, Event.signal?, hevent, hcompletes]
  | dropped hevent hdrops => simp [requestsReport, completesReport, ringsReport, hevent, hdrops]

theorem Moment.ReportCourse.of_requests {t t' : Option Instant} (h : x.ReportCourse p i t t')
    (hrequests : x.requestsReport i = true) : ∃ (now : Instant) (delay : Span),
      x.event = .request (.command (.scheduleDao i)) now ∧ p.ReportDelay delay ∧
        t' = some (now + delay) := by
  cases h with
  | idle hnot =>
    rw [hrequests] at hnot
    cases hnot
  | requested hevent _ hdelay => exact ⟨_, _, hevent, hdelay, rfl⟩
  | postponed hevent | completed hevent | dropped hevent =>
    simp [requestsReport, hevent] at hrequests

variable [RandomSource ρ]

/-- The alarm of a report that rings puts it off, or makes it and falls silent. -/
theorem Moment.Valid.rings_report (h : x.Valid p) (hn : x.before.Orderly p)
    (hevent : x.event = .ring ⟨.report i, e⟩) :
    x.before.alarms.deadline? (.report i) = some e ∧ ∃ d, x.before.dodags.find? i = some d ∧
      (x.completesReport i = false ∧ PutsOffReport p x.before x.after i e ∨
        x.completesReport i = true ∧ x.after.alarms.deadline? (.report i) = none ∧
          x.before.MakesReport x.after i d) := by
  have hrings : x.ringsReport i = true := Moment.ringsReport_iff.2 ⟨e, hevent⟩
  obtain ⟨hdue, hring⟩ := h.rang hevent
  obtain ⟨d, hd⟩ := Table.contains_iff.1 (hn.owned _ (AlarmTable.holds_of_deadline? hdue))
  refine ⟨hdue, d, hd, ?_⟩
  rw [Moment.completesReport, hrings, Bool.true_and]
  rcases reportRings_eq_ok hring with ⟨hmay, hready, k, hk, hafter⟩ | ⟨hready, ⟨hnone, -⟩ |
    ⟨d', hd', hmade⟩⟩
  · obtain ⟨-, rfl⟩ := count_eq_ok hk
    have hnot : (x.before.mayAdvertise || x.before.addressReady) = false :=
      Bool.or_eq_false_iff.2 ⟨hmay, hready⟩
    rw [hafter]
    exact .inl ⟨hnot, AlarmTable.deadline?_set.trans (if_pos rfl), rfl, rfl, rfl⟩
  · exact absurd (hd.symm.trans hnone) (by simp)
  · obtain rfl : d = d' := Option.some.inj (hd.symm.trans hd')
    refine .inr ⟨Bool.or_eq_true_iff.2 hready, ?_⟩
    have hsilent (l : Node ρ) : (l.alarms.stop (.report i)).deadline? (.report i) = none :=
      AlarmTable.deadline?_stop.trans (if_pos rfl)
    rcases hmade with ⟨a, k, l, ha, hk, hl, hafter⟩ | ⟨hnone, hafter⟩
    · obtain ⟨-, rfl⟩ := count_eq_ok hk
      have hhands := send_hands hl
      rw [hafter, MakesReport, ha]
      exact ⟨hsilent l, send_counts (c := .daoSent) hl (by decide), hhands.outbox, hhands.dropped⟩
    · rw [hafter, MakesReport, hnone]
      exact ⟨hsilent _, rfl, rfl⟩

/-- Every moment is one of those in the course of a report. -/
theorem Moment.Valid.reportCourse (h : x.Valid p) (hn : x.before.Orderly p) :
    x.ReportCourse p i (x.before.alarms.deadline? (.report i))
      (x.after.alarms.deadline? (.report i)) := by
  by_cases hmem : .report i ∈ x.event.footprint.alarms
  swap
  · obtain ⟨hrequests, hrings, hleaves⟩ := Moment.idle_of_footprint hmem
    rw [h.confined.deadline? hmem]
    exact .idle hrequests hrings (by rw [Moment.dropsReport, hleaves, Bool.false_and])
  rcases Event.eq_of_mem_footprint hmem with ⟨now, hevent⟩ | ⟨now, hevent⟩ | ⟨due, hevent⟩
  · obtain ⟨-, out, hout, hafter⟩ := h.performed hevent
    have hidle (hsame : x.after.alarms = x.before.alarms) (hnot : x.requestsReport i = false) :
        x.ReportCourse p i (x.before.alarms.deadline? (.report i))
          (x.after.alarms.deadline? (.report i)) := by
      rw [hsame]
      exact .idle hnot (by rw [ringsReport, hevent])
        (by simp [dropsReport, leaves, Event.signal?, hevent])
    rcases scheduleDao_eq_ok hout with ⟨hnot, rfl⟩ | ⟨hjoined, ⟨harmed, rfl⟩ |
      ⟨hsilent, source, delay, hdelay, rfl⟩⟩
    · exact hidle (by rw [hafter]; rfl) (by simp [requestsReport, hevent, hnot])
    · exact hidle (by rw [hafter]; rfl) (by simp [requestsReport, hevent, harmed])
    · have hrequests : x.requestsReport i = true := by
        simp [requestsReport, hevent, hjoined, hsilent]
      have hdue : x.after.alarms.deadline? (.report i) = some (now + delay) := by
        rw [hafter]
        exact AlarmTable.deadline?_set.trans (if_pos rfl)
      rw [hdue, AlarmTable.isArmed_eq_false_iff.1 hsilent]
      exact .requested hevent hrequests hdelay
  · obtain ⟨-, out, hout, hafter⟩ := h.performed hevent
    obtain rfl := Except.ok.inj hout
    rw [hafter, hn.report_of_leave]
    cases hdue : x.before.alarms.deadline? (.report i) with
    | none =>
      refine .idle (by rw [requestsReport, hevent]) (by rw [ringsReport, hevent]) ?_
      rw [dropsReport, AlarmTable.isArmed_eq_false_iff.2 hdue, Bool.and_false]
    | some e =>
      refine .dropped hevent ?_
      rw [dropsReport, leaves_iff.2 ⟨now, hevent⟩, AlarmTable.isArmed_iff.2 ⟨e, hdue⟩]
      rfl
  · obtain ⟨hbefore, d, -, ⟨hnot, hoff⟩ | ⟨hcompletes, hsilent, -⟩⟩ := h.rings_report hn hevent
    · rw [hbefore, hoff.due]
      exact .postponed hevent hnot
    · rw [hbefore, hsilent]
      exact .completed hevent hcompletes

/-! ## Accounts -/

/-- A property of a record and of the node at its end holds if it holds of the empty record, and no
event that finds the node in order breaks it. -/
theorem Trail.orderly_induction {motive : List (Moment ρ) → Node ρ → Prop} (hnil : motive [] n)
    (hworld : ∀ (ms : List (Moment ρ)) (n m : Node ρ), n.SameCore m → motive ms n → motive ms m)
    (hsnoc : ∀ (ms : List (Moment ρ)) (x : Moment ρ), x.Valid p → x.before.Orderly p →
      motive ms x.before → motive (ms ++ [x]) x.after)
    (h : Trail p n ms k) (hs : n.SoundTracks) (hn : n.Orderly p) : motive ms k := by
  have hinv : (k.SoundTracks ∧ k.Orderly p) ∧ motive ms k := by
    refine h.snoc_induction (motive := fun ms k => (k.SoundTracks ∧ k.Orderly p) ∧ motive ms k)
      ⟨⟨hs, hn⟩, hnil⟩ ?_ ?_
    · rintro ms n m hsame ⟨⟨hs, hn⟩, ih⟩
      have horderly := (keeps_of_eq hsame.dodags hsame.alarms).orderly hn
      exact ⟨⟨hsame.soundTracks hs, horderly⟩, hworld ms n m hsame ih⟩
    · rintro ms x hx ⟨⟨hs, hn⟩, ih⟩
      exact ⟨⟨hx.soundTracks hs, hx.orderly hs hn⟩, hsnoc ms x hx hn ih⟩
  exact hinv.2

/-- Every report that was requested was made, dropped, or is pending. -/
theorem Trail.reports_balance (h : Trail p n ms k) (hs : n.SoundTracks) (hn : n.Orderly p)
    (hnone : n.alarms.deadline? (.report i) = none) :
    ms.countP (·.requestsReport i) =
      ms.countP (·.completesReport i) + ms.countP (·.dropsReport i) +
        if k.alarms.isArmed (.report i) then 1 else 0 := by
  refine h.orderly_induction (motive := fun ms k => ms.countP (·.requestsReport i) =
    ms.countP (·.completesReport i) + ms.countP (·.dropsReport i) +
      if (k.alarms.deadline? (.report i)).isSome then 1 else 0) ?_ ?_ ?_ hs hn
  · rw [hnone]
    rfl
  · intro ms n m hsame ih
    rw [hsame.alarms]
    exact ih
  · intro ms x hx hn ih
    have hbalance := (hx.reportCourse (i := i) hn).balance
    simp only [List.countP_append, List.countP_singleton]
    omega

/-- The alarm of a report stays set as it is until it rings or the instance is left. -/
theorem Trail.report_waits (h : Trail p n ms k) (hs : n.SoundTracks) (hn : n.Orderly p)
    (hdue : n.alarms.deadline? (.report i) = some e)
    (hms : ∀ x ∈ ms, x.leaves i = false ∧ x.ringsReport i = false) :
    k.alarms.deadline? (.report i) = some e := by
  refine h.orderly_induction (motive := fun ms k =>
    (∀ x ∈ ms, x.leaves i = false ∧ x.ringsReport i = false) →
      k.alarms.deadline? (.report i) = some e) (fun _ => hdue) ?_ ?_ hs hn hms
  · intro ms n m hsame ih hms
    rw [hsame.alarms]
    exact ih hms
  · intro ms x hx hn ih hms
    obtain ⟨hleaves, hrings⟩ := hms x (List.mem_append_right _ List.mem_cons_self)
    have hcourse := hx.reportCourse (i := i) hn
    rw [ih fun y hy => hms y (List.mem_append_left _ hy)] at hcourse
    generalize x.after.alarms.deadline? (.report i) = t at hcourse ⊢
    cases hcourse with
    | idle => rfl
    | postponed hevent | completed hevent =>
      rw [Moment.ringsReport_iff.2 ⟨_, hevent⟩] at hrings
      cases hrings
    | dropped hevent =>
      rw [Moment.leaves_iff.2 ⟨_, hevent⟩] at hleaves
      cases hleaves

/-! ## Runs -/

/-- Requests to report are merged, but none gets lost and none is answered twice.  In the record of
a run, over all joins and leaves of an instance, the requests that found no report pending are as
many as the reports that were made, the leaves that found one pending, and one more if one is
pending now.  When the alarm of a report rings it either makes the report, which goes to the parent
that is preferred then or nowhere if none is, or puts it off for one delay, and then the report is
pending as before.

A request is granted exactly if the instance is joined.  One that finds a report pending changes
nothing but the trace.  Any other draws a delay in `[L/2, L/2 + L)`, where `L` is the latency of
reports, and unless the instance is left before that, the next alarm of the report has its deadline
that delay after the request.

A report that is made counts as sent, also when the outbox is full and loses it. -/
theorem reports_are_debounced {source : ρ} {clock : Instant} {ready : Bool}
    (hrun : Run p (.new source clock ready) ms n) (i : InstanceId) :
    (ms.countP (·.requestsReport i) =
      ms.countP (·.completesReport i) + ms.countP (·.dropsReport i) +
        if n.alarms.isArmed (.report i) then 1 else 0) ∧
    (∀ x ∈ ms, ∀ e, x.event = .ring ⟨.report i, e⟩ → ∃ d, x.before.dodags.find? i = some d ∧
      (x.completesReport i = true ∧ x.after.alarms.deadline? (.report i) = none ∧
          x.before.MakesReport x.after i d ∨
        x.completesReport i = false ∧ PutsOffReport p x.before x.after i e)) ∧
    (∀ now, (∀ out, n.perform p (.command (.scheduleDao i)) now = .ok out →
        (out.refusal = none ↔ n.dodags.contains i = true)) ∧
      (n.alarms.isArmed (.report i) = true → n.perform p (.command (.scheduleDao i)) now =
        .ok (.granted (n.emit (.daoAlreadyScheduled i))))) ∧
    ∀ (pre : List (Moment ρ)) (x : Moment ρ) (post : List (Moment ρ)), ms = pre ++ x :: post →
      x.requestsReport i = true → ∃ (now : Instant) (delay : Span),
        x.event = .request (.command (.scheduleDao i)) now ∧ p.ReportDelay delay ∧
        x.after.alarms.deadline? (.report i) = some (now + delay) ∧
        (∀ y, post.find? (fun z => z.leaves i || z.ringsReport i) = some y →
          y.leaves i = true ∨ y.event = .ring ⟨.report i, now + delay⟩) ∧
        (post.find? (fun z => z.leaves i || z.ringsReport i) = none →
          n.alarms.deadline? (.report i) = some (now + delay)) := by
  have hsound := soundTracks_new source clock ready
  have hnew := orderly_new p source clock ready
  refine ⟨hrun.trail.reports_balance hsound hnew rfl, ?_, ?_, ?_⟩
  · intro x hmem e hevent
    obtain ⟨pre, post, rfl⟩ := List.append_of_mem hmem
    obtain ⟨hpre, hx, -⟩ := hrun.trail.cut
    obtain ⟨-, d, hd, hcase⟩ := hx.rings_report (hpre.orderly hsound hnew) hevent
    exact ⟨d, hd, hcase.symm⟩
  · intro now
    constructor
    · intro out hout
      rcases scheduleDao_eq_ok hout with ⟨hnot, rfl⟩ | ⟨hjoined, ⟨-, rfl⟩ | ⟨-, -, -, -, rfl⟩⟩
      · simp [hnot]
      · simp [hjoined]
      · simp [hjoined]
    · intro harmed
      obtain ⟨e, hdue⟩ := AlarmTable.isArmed_iff.1 harmed
      have horderly := hrun.trail.orderly hsound hnew
      exact scheduleDao_of_armed (horderly.owned _ (AlarmTable.holds_of_deadline? hdue)) harmed
  · rintro pre x post rfl hrequests
    obtain ⟨hpre, hx, hpost⟩ := hrun.trail.cut
    have hs := hpre.soundTracks hsound
    have hn := hpre.orderly hsound hnew
    obtain ⟨now, delay, hevent, hdelay, hdue⟩ :=
      (hx.reportCourse (i := i) hn).of_requests hrequests
    have hs' := hx.soundTracks hs
    have hn' := hx.orderly hs hn
    refine ⟨now, delay, hevent, hdelay, hdue, ?_, ?_⟩
    · intro y hy
      obtain ⟨hyes, mid, rest, rfl, hmid⟩ := List.find?_eq_some_iff_append.1 hy
      obtain ⟨htrail, hvalid, -⟩ := hpost.cut
      refine (Bool.or_eq_true_iff.1 hyes).imp_right fun hrings => ?_
      obtain ⟨due, hring⟩ := Moment.ringsReport_iff.1 hrings
      have hwaits := htrail.report_waits hs' hn' hdue (by simpa using hmid)
      rw [hring, Option.some.inj (hwaits.symm.trans (hvalid.rang hring).1)]
    · intro hnone
      exact hpost.report_waits hs' hn' hdue (by simpa using hnone)

/-- Requests to a node that joins an instance, prefers a parent there and asks for a report twice.
The report is due after two seconds. -/
def askedTwice : List (Operation × Instant) :=
  [(.join 1 {}, .zero), (.addParent 1 (.linkLocal 2), .zero),
    (.command (.setPreferred 1 (some (.linkLocal 2))), .zero),
    (.command (.scheduleDao 1), .zero), (.command (.scheduleDao 1), .ofTicks 1),
    (.handleTimer, .ofTicks 2000)]

/-- Requests to the same node, which makes its report, asks for another and leaves the instance. -/
def askedAndLeft : List (Operation × Instant) :=
  [(.handleTimer, .ofTicks 3000), (.command (.scheduleDao 1), .ofTicks 3000),
    (.leave 1, .ofTicks 3001)]

/-- The link-local address is not usable when the report is due, so it is put off for a second.  By
then the address is usable, and one report is sent for the two requests.  The third request is
dropped. -/
theorem reports_are_debounced_though_put_off :
    ∃ (ms ms' : List (Moment Generator)) (n n' : Node Generator),
      record .millis askedTwice (.new (.fixed 0) .zero false) = .ok (ms, n) ∧
      n.counts.daoPostponed = 1 ∧ n.alarms.deadline? (.report 1) = some (.ofTicks 3000) ∧
      record .millis askedAndLeft { n with addressReady := true } = .ok (ms', n') ∧
      n'.counts.daoSent = 1 ∧ (ms ++ ms').countP (·.requestsReport 1) = 2 ∧
      (ms ++ ms').countP (·.dropsReport 1) = 1 ∧ n'.alarms.isArmed (.report 1) = false ∧
      (ms ++ ms').countP (·.completesReport 1) = 1 := by
  obtain ⟨ms, ms', n, n', hrecord, hpostponed, hdue, hrecord', hsent, hrequests, hdrops, hsilent⟩ :
      ∃ (ms ms' : List (Moment Generator)) (n n' : Node Generator),
        record .millis askedTwice (.new (.fixed 0) .zero false) = .ok (ms, n) ∧
        n.counts.daoPostponed = 1 ∧ n.alarms.deadline? (.report 1) = some (.ofTicks 3000) ∧
        record .millis askedAndLeft { n with addressReady := true } = .ok (ms', n') ∧
        n'.counts.daoSent = 1 ∧ (ms ++ ms').countP (·.requestsReport 1) = 2 ∧
        (ms ++ ms').countP (·.dropsReport 1) = 1 ∧ n'.alarms.isArmed (.report 1) = false :=
    ⟨_, _, _, _, rfl, rfl, rfl, rfl, rfl, rfl, rfl, rfl⟩
  have hrun : Run .millis (.new (Generator.fixed 0) .zero false) (ms ++ ms') n' :=
    ((Run.start.record hrecord).outside (sameCore_addressReady n true)).record hrecord'
  have haccount := (reports_are_debounced hrun 1).1
  rw [hrequests, hdrops, hsilent, if_neg Bool.false_ne_true] at haccount
  refine ⟨ms, ms', n, n', hrecord, hpostponed, hdue, hrecord', hsent, hrequests, hdrops,
    hsilent, ?_⟩
  omega

end Node

end TrickleNet
