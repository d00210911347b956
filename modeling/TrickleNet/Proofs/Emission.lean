import Mathlib
import TrickleNet.Proofs.Requests
/-!
# What a node tells and sends

`Node.Emits n m events messages` says that a step from `n` to `m` wrote `events` into the trace and
queued `messages`.  Both mailboxes lose what they have no room for, but the step gives an account
that loses nothing: every counter of decisions goes up once for each event that tells of one, every
sample that the objective function received is told, and a message that is not in the outbox counts
as dropped.

No request and no alarm tells more than two things or sends more than one message (`says_perform`,
`says_handleRing`).  So how much is told in a call is a matter of how many requests are made and how
many alarms ring.
-/

namespace TrickleNet

/-- The decision that an event tells of, if it is one that the node counts. -/
def TraceEvent.counter? : TraceEvent → Option Counter
  | .trickleReset .. => some .dioResets
  | .dioPostponed _ => some .dioPostponed
  | .daoPostponed _ => some .daoPostponed
  | .daoSent .. => some .daoSent
  | .disBroadcast => some .disBroadcast
  | .windowMissed .. => some .windowsMissed
  | .probeSent .. => some .probesSent
  | .latencyMeasured .. => some .latencySamples
  | _ => none

/-- The lateness that an event tells of. -/
def TraceEvent.lateness? : TraceEvent → Option Span
  | .latencyMeasured _ latency => some latency
  | _ => none

/-- That a message was lost is told by its counter only. -/
theorem TraceEvent.counter?_ne_controlDropped (e : TraceEvent) :
    e.counter? ≠ some .controlDropped := by
  intro h
  cases e <;> cases h

/-- A mailbox with room for all of them takes messages one after the other. -/
theorem Mailbox.toList_foldl_offer {capacity : Nat} {α : Type} {l : List α}
    {box : Mailbox capacity α} (h : box.toList.length + l.length ≤ capacity) :
    (l.foldl offer box).toList = box.toList ++ l := by
  induction l generalizing box with
  | nil => rw [List.foldl_nil, List.append_nil]
  | cons x l ih =>
    rw [List.length_cons] at h
    have hroom : box.hasRoom = true := hasRoom_iff.2 (by omega)
    have hoffer : (box.offer x).toList = box.toList ++ [x] := by rw [toList_offer, if_pos hroom]
    rw [List.foldl_cons, ih, hoffer, List.append_assoc, List.singleton_append]
    rw [hoffer, List.length_append, List.length_singleton]
    omega

namespace Node

variable {ρ : Type} {p : Platform} {n m k : Node ρ} {i : InstanceId} {a : Address} {d : Dodag}
  {w : Watch} {c : Counter} {msg : Control} {e : TraceEvent} {now : Instant} {after : Span}
  {events events' : List TraceEvent} {messages messages' : List Control} {j j' l l' : Nat}

/-- What a step has told and sent. -/
structure Emits (n m : Node ρ) (events : List TraceEvent) (messages : List Control) : Prop where
  trace : m.trace = events.foldl Mailbox.offer n.trace
  outbox : m.outbox = messages.foldl Mailbox.offer n.outbox
  counts : ∀ c ≠ .controlDropped,
    m.counts.get c = n.counts.get c + events.countP fun e => e.counter? = some c
  dropped : m.counts.controlDropped + m.outbox.toList.length =
    n.counts.controlDropped + n.outbox.toList.length + messages.length
  samples : m.samples.map LatencySample.latency =
    n.samples.map LatencySample.latency ++ events.filterMap TraceEvent.lateness?

theorem Emits.trans (h : n.Emits m events messages) (h' : m.Emits k events' messages') :
    n.Emits k (events ++ events') (messages ++ messages') where
  trace := by rw [h'.trace, h.trace, List.foldl_append]
  outbox := by rw [h'.outbox, h.outbox, List.foldl_append]
  counts c hc := by rw [h'.counts c hc, h.counts c hc, List.countP_append, Nat.add_assoc]
  dropped := by rw [h'.dropped, h.dropped, List.length_append, Nat.add_assoc]
  samples := by rw [h'.samples, h.samples, List.filterMap_append, List.append_assoc]

/-- As long as there is room nothing is lost. -/
theorem Emits.lossless (h : n.Emits m events messages)
    (htrace : n.trace.toList.length + events.length ≤ traceCapacity)
    (houtbox : n.outbox.toList.length + messages.length ≤ outboxCapacity) :
    m.trace.toList = n.trace.toList ++ events ∧ m.outbox.toList = n.outbox.toList ++ messages ∧
      m.counts.controlDropped = n.counts.controlDropped := by
  have hsent : m.outbox.toList = n.outbox.toList ++ messages := by
    rw [h.outbox, Mailbox.toList_foldl_offer houtbox]
  refine ⟨by rw [h.trace, Mailbox.toList_foldl_offer htrace], hsent, ?_⟩
  have hdropped := h.dropped
  rw [hsent, List.length_append] at hdropped
  omega

/-- A step tells of at most `j` decisions and sends at most `l` messages. -/
def Says (j l : Nat) (n m : Node ρ) : Prop :=
  ∃ events messages, events.length ≤ j ∧ messages.length ≤ l ∧ n.Emits m events messages

namespace Says

/-- A step may change what has no part in telling and sending. -/
theorem of_eq (htrace : m.trace = n.trace) (houtbox : m.outbox = n.outbox)
    (hcounts : m.counts = n.counts) (hsamples : m.samples = n.samples) : Says j l n m := by
  refine ⟨[], [], Nat.zero_le j, Nat.zero_le l, htrace, houtbox, fun c _ => ?_, ?_, ?_⟩
  · rw [hcounts, List.countP_nil, Nat.add_zero]
  · rw [hcounts, houtbox, List.length_nil, Nat.add_zero]
  · rw [hsamples, List.filterMap_nil, List.append_nil]

theorem refl (n : Node ρ) : Says j l n n := of_eq rfl rfl rfl rfl

theorem trans (h : Says j l n m) (h' : Says j' l' m k) : Says (j + j') (l + l') n k := by
  obtain ⟨events, messages, hevents, hmessages, h⟩ := h
  obtain ⟨events', messages', hevents', hmessages', h'⟩ := h'
  refine ⟨events ++ events', messages ++ messages', ?_, ?_, h.trans h'⟩
  · rw [List.length_append]
    omega
  · rw [List.length_append]
    omega

theorem mono (h : Says j l n m) (hj : j ≤ j') (hl : l ≤ l') : Says j' l' n m := by
  obtain ⟨events, messages, hevents, hmessages, h⟩ := h
  exact ⟨events, messages, hevents.trans hj, hmessages.trans hl, h⟩

/-- A step goes on with one that changes nothing that is told or sent. -/
theorem congr (h : Says j l n m) (htrace : k.trace = m.trace) (houtbox : k.outbox = m.outbox)
    (hcounts : k.counts = m.counts) (hsamples : k.samples = m.samples) : Says j l n k :=
  h.trans (of_eq (j := 0) (l := 0) htrace houtbox hcounts hsamples)

/-- An event is written into the trace, and what it tells of is counted and kept. -/
theorem tell (e : TraceEvent) (htrace : m.trace = n.trace.offer e) (houtbox : m.outbox = n.outbox)
    (hcounts : e.counter? = none ∧ m.counts = n.counts ∨
      ∃ c, e.counter? = some c ∧ m.counts = n.counts.set c (n.counts.get c + 1))
    (hsamples : m.samples.map LatencySample.latency =
      n.samples.map LatencySample.latency ++ e.lateness?.toList) : Says 1 0 n m := by
  have hget (c : Counter) :
      m.counts.get c = n.counts.get c + [e].countP fun e => e.counter? = some c := by
    rw [List.countP_singleton]
    rcases hcounts with ⟨hnone, hcounts⟩ | ⟨c', hsome, hcounts⟩
    · rw [hcounts, hnone]
      rfl
    · rw [hcounts, hsome, NodeCounts.get_set]
      by_cases hc : c = c'
      · subst hc
        simp
      · simp [hc, Ne.symm hc]
  refine ⟨[e], [], Nat.le_refl 1, Nat.le_refl 0, htrace, houtbox, fun c _ => hget c, ?_, ?_⟩
  · have hsame : m.counts.controlDropped = n.counts.controlDropped := by
      have hdropped := hget .controlDropped
      rw [List.countP_singleton, decide_eq_false e.counter?_ne_controlDropped] at hdropped
      exact hdropped
    rw [hsame, houtbox, List.length_nil, Nat.add_zero]
  · rw [hsamples]
    cases he : e.lateness? <;> simp [he]

/-- A decision that is not counted is told. -/
theorem emit (h : Says j l n m) (hcounter : e.counter? = none) (hlateness : e.lateness? = none) :
    Says (j + 1) l n (m.emit e) := by
  refine h.trans (tell (m := m.emit e) e rfl rfl (.inl ⟨hcounter, rfl⟩) ?_)
  rw [hlateness, Option.toList_none, List.append_nil]
  rfl

/-- A decision is counted and told. -/
theorem note (h : Says j l n m) (hk : m.count c = .ok k) (hcounter : e.counter? = some c)
    (hlateness : e.lateness? = none) : Says (j + 1) l n (k.emit e) := by
  obtain ⟨-, rfl⟩ := count_eq_ok hk
  have htell : Says 1 0 m
      (Node.emit { m with counts := m.counts.set c (m.counts.get c + 1) } e) := by
    refine tell e rfl rfl (.inr ⟨c, hcounter, rfl⟩) ?_
    rw [hlateness, Option.toList_none, List.append_nil]
    rfl
  exact h.trans htell

/-- A message is queued, or counted as dropped. -/
theorem send (h : Says j l n m) (hk : m.send msg = .ok k) : Says j (l + 1) n k := by
  have hsend : Says 0 1 m k := by
    rcases send_eq_ok hk with ⟨hroom, rfl⟩ | ⟨hfull, hk⟩
    · refine ⟨[], [msg], Nat.le_refl 0, Nat.le_refl 1, rfl, rfl, fun c _ => rfl, ?_, ?_⟩
      · rw [Mailbox.toList_offer, if_pos hroom, List.length_append, Nat.add_assoc]
      · rw [List.filterMap_nil, List.append_nil]
    · obtain ⟨-, rfl⟩ := count_eq_ok hk
      refine ⟨[], [msg], Nat.le_refl 0, Nat.le_refl 1, rfl, ?_, fun c hc => ?_, ?_, ?_⟩
      · rw [List.foldl_cons, List.foldl_nil]
        refine Mailbox.ext ?_
        rw [Mailbox.toList_offer, hfull, if_neg (by simp)]
      · show (m.counts.set .controlDropped _).get c = _
        rw [NodeCounts.get_set, if_neg hc, List.countP_nil, Nat.add_zero]
      · show m.counts.controlDropped + 1 + m.outbox.toList.length = _
        rw [List.length_singleton]
        omega
      · rw [List.filterMap_nil, List.append_nil]
  exact h.trans hsend

theorem sendProbe (h : Says j l n m) (hk : m.sendProbe i a = .ok k) : Says (j + 1) (l + 1) n k := by
  obtain ⟨k', hk', hk⟩ := Checked.bind_eq_ok_iff.1 hk
  exact (h.note hk' rfl rfl).send hk

theorem scheduleReception {delay listen jitter : Span} (h : Says j l n m) :
    Says (j + 1) l n (m.scheduleReception i a delay listen jitter now).state := by
  have hsame : Says (j + 1) l n m := h.mono (Nat.le_succ j) (Nat.le_refl l)
  unfold Node.scheduleReception
  split
  · exact hsame
  split
  · exact hsame
  split
  · exact hsame
  · rename_i d _ _ _ w _
    have hput : Says j l n (m.putWatch i d a { w with opens := now + delay, listen, jitter }) :=
      h.congr rfl rfl rfl rfl
    exact (hput.emit rfl rfl).congr rfl rfl rfl rfl

section Draws

variable [RandomSource ρ]

theorem armProbe (h : Says j l n m) : Says j l n (armProbe p m i a now) := by
  obtain ⟨source, after, -, heq⟩ := armProbe_eq p m i a now
  rw [heq]
  exact h.congr rfl rfl rfl rfl

theorem beginInterval (h : Says j l n m) (hk : beginInterval p m i now = .ok k) :
    Says (j + 1) l n k := by
  cases hd : m.dodags.find? i with
  | none =>
    simp only [Node.beginInterval, hd] at hk
    rw [← Except.ok.inj hk]
    exact h.mono (Nat.le_succ j) (Nat.le_refl l)
  | some d =>
    obtain ⟨split, d', source, -, rfl⟩ := beginInterval_eq_ok hd hk
    have hput : Says j l n (Node.putDodag { m with source } i d') := h.congr rfl rfl rfl rfl
    exact (hput.emit rfl rfl).congr rfl rfl rfl rfl

theorem resetDio {force : Bool} {out : Outcome (Node ρ)} (h : Says j l n m)
    (hout : resetDio p m i force now = .ok out) : Says (j + 2) l n out.state := by
  rcases resetDio_eq_ok hout with hsame | ⟨d, k, -, hk, hbegin⟩
  · rw [hsame]
    exact h.mono (Nat.le_add_right j 2) (Nat.le_refl l)
  · have hput : Says j l n (m.putDodag i d.restart) := h.congr rfl rfl rfl rfl
    exact (hput.note hk rfl rfl).beginInterval hbegin

end Draws

end Says

/-! ## Requests -/

theorem says_dioReceived {lookahead : Lookahead} {out : Outcome (Node ρ)}
    (h : dioReceived p n i a lookahead now = .ok out) : Says 2 0 n out.state := by
  by_cases hp : (n.track i a).preferred ∧ (n.track i a).watch.isSome
  swap
  · rw [dioReceived_of_not_preferred hp h]
    exact .refl n
  obtain ⟨w, hw⟩ := Option.isSome_iff_exists.1 hp.2
  obtain ⟨d, hd, hpref, hfind⟩ := dodag_of_track hp.1 hw
  rw [dioReceived_eq hd hpref hfind] at h
  cases hr : w.reception lookahead.listen (lookahead.jitter + p.receptionSkew) now with
  | first =>
    simp only [hr] at h
    rw [← Except.ok.inj h, firstHeard]
    refine Says.scheduleReception (j := 1) ?_
    split
    · exact Says.emit (j := 0) (.of_eq rfl rfl rfl rfl) rfl rfl
    · exact .of_eq rfl rfl rfl rfl
  | answer =>
    simp only [hr] at h
    rw [← Except.ok.inj h, answerHeard]
    refine Says.congr (Says.emit (j := 1) (m := n.putWatch i d a _) ?_ ?_ ?_) rfl rfl rfl rfl
    · exact .of_eq rfl rfl rfl rfl
    · rfl
    · rfl
  | late =>
    simp only [hr] at h
    obtain ⟨latency, -, h⟩ := Checked.bind_eq_ok_iff.1 h
    obtain ⟨k, hk, h⟩ := Checked.bind_eq_ok_iff.1 h
    rw [← Except.ok.inj h]
    refine Says.scheduleReception (j := 1) ?_
    obtain ⟨-, rfl⟩ := count_eq_ok hk
    refine .tell (.latencyMeasured i latency) rfl rfl (.inr ⟨_, rfl, rfl⟩) ?_
    exact List.map_append
  | repeated =>
    simp only [hr] at h
    rw [← Except.ok.inj h]
    exact Says.scheduleReception (j := 1) (.refl n)
  | early | overlooked =>
    simp only [hr] at h
    rw [← Except.ok.inj h]
    exact Says.emit (j := 1) (.refl n) rfl rfl

theorem says_solicit {out : Outcome (Node ρ)} (h : n.solicit i = .ok out) :
    Says 1 1 n out.state := by
  unfold solicit at h
  split at h
  · rw [← Except.ok.inj h]
    exact .refl n
  split at h
  · rw [← Except.ok.inj h]
    exact .refl n
  · obtain ⟨k, hk, h⟩ := Checked.bind_eq_ok_iff.1 h
    rw [← Except.ok.inj h]
    refine Says.sendProbe (j := 0) (l := 0) ?_ hk
    exact .of_eq rfl rfl rfl rfl

theorem says_setPreferred {b : Option Address} : Says 0 0 n (n.setPreferred i b).state := by
  unfold setPreferred
  split
  · exact .refl n
  split
  · exact .refl n
  split
  · exact .refl n
  split <;> exact .of_eq rfl rfl rfl rfl

theorem says_addParent : Says 0 0 n (addParent p n i a).state := by
  unfold addParent
  split
  · exact .refl n
  split
  · exact .refl n
  split
  · exact .refl n
  · exact .of_eq rfl rfl rfl rfl

theorem says_removeParent : Says 0 0 n (n.removeParent i a).state := by
  unfold removeParent
  split
  · exact .refl n
  split
  · exact .of_eq rfl rfl rfl rfl
  · exact .refl n

theorem says_leave : Says 0 0 n (n.leave i).state := by
  unfold leave
  split
  · exact .of_eq rfl rfl rfl rfl
  · exact .refl n

theorem says_dioConsistent : Says 0 0 n (n.dioConsistent i).state := by
  unfold dioConsistent
  split
  · exact .refl n
  · exact .of_eq rfl rfl rfl rfl

section

variable [RandomSource ρ]

theorem says_scheduleDao {out : Outcome (Node ρ)} (h : scheduleDao p n i now = .ok out) :
    Says 1 0 n out.state := by
  unfold scheduleDao at h
  split at h
  · rw [← Except.ok.inj h]
    exact .refl n
  split at h
  · rw [← Except.ok.inj h]
    exact Says.emit (.refl n) rfl rfl
  · obtain ⟨ticks, -, h⟩ := Checked.bind_eq_ok_iff.1 h
    rw [← Except.ok.inj h]
    exact Says.emit (.of_eq rfl rfl rfl rfl) rfl rfl

theorem says_join {params : TrickleParams} {out : Outcome (Node ρ)}
    (h : join p n i params now = .ok out) : Says 2 0 n out.state := by
  unfold join at h
  split at h
  · rw [← Except.ok.inj h]
    exact .refl n
  split at h
  · rw [← Except.ok.inj h]
    exact .refl n
  split at h
  · rw [← Except.ok.inj h]
    exact .refl n
  · refine Says.resetDio (j := 0) ?_ h
    exact .of_eq rfl rfl rfl rfl

/-- No request tells more than two things or sends more than one message. -/
theorem says_perform {o : Operation} {out : Outcome (Node ρ)} (ho : o ≠ .handleTimer)
    (h : n.perform p o now = .ok out) : Says 2 1 n out.state := by
  have hmono {j l : Nat} {n m : Node ρ} (h : Says j l n m) (hj : j ≤ 2 := by decide)
      (hl : l ≤ 1 := by decide) : Says 2 1 n m := h.mono hj hl
  cases o with
  | join i params => exact hmono (says_join h)
  | leave i =>
    rw [← Except.ok.inj h]
    exact hmono says_leave
  | addParent i a =>
    rw [← Except.ok.inj h]
    exact hmono says_addParent
  | removeParent i a =>
    rw [← Except.ok.inj h]
    exact hmono says_removeParent
  | scheduleReception i a delay listen jitter =>
    rw [← Except.ok.inj h]
    exact Says.scheduleReception (j := 1) (.refl n)
  | handleTimer => exact absurd rfl ho
  | command c =>
    cases c with
    | resetDio i force => exact hmono (Says.resetDio (j := 0) (l := 0) (.refl n) h)
    | scheduleDao i => exact hmono (says_scheduleDao h)
    | dioConsistent i =>
      rw [← Except.ok.inj h]
      exact hmono says_dioConsistent
    | dioReceived i a lookahead => exact hmono (says_dioReceived h)
    | setPreferred i b =>
      rw [← Except.ok.inj h]
      exact hmono says_setPreferred
    | solicit i => exact hmono (says_solicit h)
    | restartUpkeep =>
      rw [← Except.ok.inj h]
      exact .of_eq rfl rfl rfl rfl

end

/-! ## Alarms -/

theorem says_upkeepRings (h : upkeepRings p n = .ok m) : Says 1 1 n m := by
  obtain ⟨k, l, hk, hl, rfl⟩ := upkeepRings_eq_ok h
  obtain ⟨upkeep, -, -, rfl⟩ := ageRoutes_eq_ok hk
  refine Says.congr (m := l) ?_ rfl rfl rfl rfl
  rcases solicitDetached_eq_ok hl with ⟨-, k, hk, hsend⟩ | ⟨-, rfl⟩
  · have hticked : Says 0 0 n { n with upkeep, sinceSolicit := 0 } := .of_eq rfl rfl rfl rfl
    exact (hticked.note hk rfl rfl).send hsend
  · exact .of_eq rfl rfl rfl rfl

theorem says_reportRings (h : reportRings p n i now = .ok m) : Says 1 1 n m := by
  have hn : Says 0 0 n n := .refl n
  rcases reportRings_eq_ok h with ⟨-, -, k, hk, rfl⟩ | ⟨-, ⟨-, rfl⟩ | ⟨d, -, hmade⟩⟩
  · have hnote := hn.note (e := .daoPostponed i) hk rfl rfl
    exact (hnote.mono (Nat.le_refl 1) (Nat.zero_le 1)).congr rfl rfl rfl rfl
  · exact .refl m
  · rcases hmade with ⟨a, k, l, -, hk, hl, rfl⟩ | ⟨-, rfl⟩
    · exact ((hn.note hk rfl rfl).send hl).congr rfl rfl rfl rfl
    · have hemit := hn.emit (e := .noDaoParent i) rfl rfl
      exact (hemit.mono (Nat.le_refl 1) (Nat.zero_le 1)).congr rfl rfl rfl rfl

theorem says_takeDecision (h : n.takeDecision i d now = .ok m) : Says 1 1 n m := by
  rcases takeDecision_eq_ok h with ⟨-, -, k, hk, rfl⟩ | ⟨-, -, rfl⟩
  · refine Says.congr (Says.send (l := 0) (Says.emit (j := 0) ?_ rfl rfl) hk) rfl rfl rfl rfl
    exact .of_eq rfl rfl rfl rfl
  · refine Says.congr (Says.emit (j := 0) ?_ rfl rfl) rfl rfl rfl rfl
    exact .of_eq rfl rfl rfl rfl

theorem says_watchRings [RandomSource ρ] (h : watchRings p n i a now = .ok m) : Says 1 0 n m := by
  rcases watchRings_eq_ok h with ⟨rfl, -⟩ | ⟨d, w, k, -, -, -, hk, rfl⟩
  · exact .refl m
  · refine (Says.note (j := 0) ?_ hk rfl rfl).armProbe
    exact .of_eq rfl rfl rfl rfl

theorem says_probeRings [RandomSource ρ] (h : probeRings p n i a now = .ok m) : Says 1 1 n m := by
  rcases probeRings_eq_ok h with ⟨rfl, -⟩ | ⟨-, -, k, hk, rfl⟩
  · exact .refl m
  · exact (Says.sendProbe (j := 0) (l := 0) (.refl n) hk).armProbe

section

variable [RandomSource ρ] {os : List Operation} {ms : List (Moment ρ)}

theorem says_advertiseRings (h : advertiseRings p n i now = .ok m) : Says 1 1 n m := by
  have hlatched : Says 0 0 n n.latchReady := .of_eq rfl rfl rfl rfl
  rcases advertiseRings_eq_ok h with ⟨-, k, hk, rfl⟩ | ⟨-, ⟨-, rfl⟩ | ⟨d, -, hturn⟩⟩
  · have hnote := hlatched.note (e := .dioPostponed i) hk rfl rfl
    exact (hnote.mono (Nat.le_refl 1) (Nat.zero_le 1)).congr rfl rfl rfl rfl
  · exact .of_eq rfl rfl rfl rfl
  · rcases hturn with ⟨-, hk⟩ | ⟨-, hk⟩
    · exact (hlatched.trans (says_takeDecision hk)).mono (by decide) (by decide)
    · have hgrown : Says 0 0 n (n.latchReady.putDodag i d.grow) := .of_eq rfl rfl rfl rfl
      exact (hgrown.beginInterval hk).mono (Nat.le_refl 1) (Nat.zero_le 1)

/-- No alarm tells more than one thing or sends more than one message. -/
theorem says_handleRing {r : Ring} (h : handleRing p n r = .ok m) : Says 1 1 n m := by
  obtain ⟨q, due⟩ := r
  cases q with
  | upkeep => exact says_upkeepRings h
  | advertise i => exact says_advertiseRings h
  | report i => exact says_reportRings h
  | watch i a => exact (says_watchRings h).mono (Nat.le_refl 1) (Nat.zero_le 1)
  | probe i a => exact says_probeRings h

/-! ## Calls -/

/-- Requests made one after the other tell at most two things each. -/
theorem Performs.says (h : Performs p now n os m) (hos : ∀ o ∈ os, o ≠ .handleTimer) :
    Says (2 * os.length) os.length n m := by
  induction h with
  | done => exact .of_eq rfl rfl rfl rfl
  | @request n m o out os hout _ ih =>
    have hclock : Says 0 0 n { n with clock := now } := .of_eq rfl rfl rfl rfl
    have hfirst := hclock.trans (says_perform (hos o List.mem_cons_self) hout)
    have hrest := ih fun o ho => hos o (List.mem_cons_of_mem _ ho)
    refine (hfirst.trans hrest).mono ?_ ?_
    · rw [List.length_cons]
      omega
    · rw [List.length_cons]
      omega

/-- Alarms that ring one after the other tell at most one thing each. -/
theorem Rung.says (h : Rung p now n ms m) : Says ms.length ms.length n m := by
  induction h with
  | start => exact .refl _
  | @ring n m k r alarms ms hring hm _ ih =>
    have hstopped : Says 0 0 n { n with alarms } := .of_eq rfl rfl rfl rfl
    refine ((hstopped.trans (says_handleRing hm)).trans ih).mono ?_ ?_
    · rw [List.length_cons]
      omega
    · rw [List.length_cons]
      omega

end

end Node

end TrickleNet
