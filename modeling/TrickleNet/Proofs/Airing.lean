import Mathlib
import TrickleNet.Proofs.Collecting
import TrickleNet.Proofs.Neighbors
/-!
# Messages on the air

The radio carries a message to its audience, which are the nodes that it is meant for and whose link
to the sender is up (`RadioMap.audience`): all neighbours for an advertisement and for a
solicitation without a target, and otherwise the one node that is addressed.  Each node of the
audience costs one frame.  A frame is lost at once or on its way until it is delivered, so that
sending adds as many frames to those that are lost or in flight as the audience has nodes.  That is
what `Simulation.Aired` says, next to the count of the messages themselves, and it is what
`Simulation.settle` does with the outbox of a station (`aired_settle`).
-/

namespace TrickleNet

/-- Whether a message is meant for a node that hears it. -/
def Control.MeantFor : Control → Address → Prop
  | .dio .., _ | .dis none, _ => True
  | .dis (some target), b => b = target
  | .dao _ parent _, b => b = parent

/-- Whether the message is an advertisement. -/
def Control.isDio : Control → Bool
  | .dio .. => true
  | .dis .. | .dao .. => false

/-- Whether the message is a solicitation. -/
def Control.isDis : Control → Bool
  | .dis .. => true
  | .dio .. | .dao .. => false

/-- Whether the message is a report. -/
def Control.isDao : Control → Bool
  | .dao .. => true
  | .dio .. | .dis .. => false

/-- The messages are counted by type. -/
theorem Traffic.foldl_add (cs : List Control) (t : Traffic) :
    cs.foldl Traffic.add t =
      ⟨t.dio + cs.countP Control.isDio, t.dis + cs.countP Control.isDis,
        t.dao + cs.countP Control.isDao⟩ := by
  induction cs generalizing t with
  | nil => rfl
  | cons c cs ih =>
    rw [List.foldl_cons, ih]
    simp only [List.countP_cons]
    cases c <;> simp [Traffic.add, Control.isDio, Control.isDis, Control.isDao] <;> omega

/-- The nodes that a message reaches. -/
def RadioMap.audience (m : RadioMap) (sender : Address) (c : Control) : Set Address :=
  {b | m.connected sender b = true ∧ c.MeantFor b}

/-- To count the audience, a list will do whose nodes with a link that is up are those that the
message is meant for. -/
theorem RadioMap.countP_connected {m : RadioMap} {sender : Address} {c : Control} {l : List Address}
    (hl : l.Nodup) (hmem : ∀ b, m.connected sender b = true → (b ∈ l ↔ c.MeantFor b)) :
    l.countP (m.connected sender) = (m.audience sender c).ncard := by
  have haudience : m.audience sender c =
      ((l.filter (m.connected sender)).toFinset : Set Address) := by
    ext b
    rw [Finset.mem_coe, List.mem_toFinset, List.mem_filter]
    constructor
    · rintro ⟨hup, hmeant⟩
      exact ⟨(hmem b hup).2 hmeant, hup⟩
    · rintro ⟨hb, hup⟩
      exact ⟨hup, (hmem b hup).1 hb⟩
  rw [haudience, Set.ncard_coe_finset, List.toFinset_card_of_nodup (hl.filter _),
    List.countP_eq_length_filter]

/-- How many frames it takes to send these messages, each with its sender. -/
noncomputable def RadioMap.frames (m : RadioMap) (messages : List (Address × Control)) : Nat :=
  (messages.map fun e => (m.audience e.1 e.2).ncard).sum

/-- The messages that a station has queued. -/
def Station.messages (t : Station) : List (Address × Control) :=
  t.node.outbox.toList.map (Prod.mk t.address)

theorem sum_map_ite {α : Type} (f : α → Bool) (l : List α) :
    (l.map fun x => if f x then 1 else 0).sum = l.countP f := by
  induction l with
  | nil => rfl
  | cons x l ih => rw [List.map_cons, List.sum_cons, ih, List.countP_cons, Nat.add_comm]

/-! ## Frames in flight -/

/-- Whether it is a message that reaches a node. -/
def Happening.isDelivery : Happening → Bool
  | .deliver .. => true
  | .wake .. | .act .. => false

namespace Agenda

variable {q q' : Agenda} {time : Instant} {h : Happening}

/-- How many frames are on their way. -/
def inFlight (q : Agenda) : Nat := q.entries.countP fun e => e.2.isDelivery

theorem inFlight_schedule (hs : q.schedule time h = .ok q') :
    q'.inFlight = q.inFlight + if h.isDelivery then 1 else 0 := by
  obtain ⟨hentries, -⟩ := schedule_eq_ok hs
  rw [inFlight, hentries, perm_place.countP_eq, List.countP_cons]
  rfl

theorem eq_of_mem_schedule {e : Slot × Happening} (hs : q.schedule time h = .ok q')
    (he : e ∈ q'.entries) : e ∈ q.entries ∨ e.2 = h :=
  (grows_schedule (P := fun _ h' => h' = h) hs fun _ => rfl).added e he

end Agenda

namespace Simulation

variable {s s' s'' : Simulation} {t : Station} {sender receiver : Address} {c : Control}
  {messages messages' : List Control} {frames frames' : Nat}

/-! ## What sending adds up to -/

/-- A frame is on its way to a node that its message reaches. -/
def Aimed (radio : RadioMap) (h : Happening) : Prop :=
  ∀ sender receiver c, h = .deliver sender receiver c → receiver ∈ radio.audience sender c

/-- Messages were sent, and this many frames are lost or in flight now that were not before. -/
structure Aired (messages : List Control) (frames : Nat) (s s' : Simulation) : Prop where
  radio : s'.radio = s.radio
  sent : s'.logbook.sent = messages.foldl Traffic.add s.logbook.sent
  delivered : s'.logbook.delivered = s.logbook.delivered
  reports : s'.logbook.daosReceived = s.logbook.daosReceived
  frames : s'.logbook.lost + s'.agenda.inFlight = s.logbook.lost + s.agenda.inFlight + frames
  aimed : ∀ e ∈ s'.agenda.entries, e ∈ s.agenda.entries ∨ Aimed s.radio e.2

theorem Aired.refl (s : Simulation) : Aired [] 0 s s := ⟨rfl, rfl, rfl, rfl, rfl, fun _ => .inl⟩

theorem Aired.trans (h : Aired messages frames s s') (h' : Aired messages' frames' s' s'') :
    Aired (messages ++ messages') (frames + frames') s s'' where
  radio := h'.radio.trans h.radio
  sent := by rw [h'.sent, h.sent, List.foldl_append]
  delivered := h'.delivered.trans h.delivered
  reports := h'.reports.trans h.reports
  frames := by
    have := h.frames
    have := h'.frames
    omega
  aimed e he := by
    rcases h'.aimed e he with he | he
    · exact h.aimed e he
    · rw [h.radio] at he
      exact .inr he

/-- A frame goes to a node whose link is up, and nowhere else. -/
theorem aired_sendFrame (hmeant : c.MeantFor receiver)
    (h : s.sendFrame sender c receiver = .ok s') :
    Aired [] (if s.radio.connected sender receiver then 1 else 0) s s' := by
  rcases sendFrame_eq_ok h with ⟨hoff, rfl⟩ | ⟨l, hl, hup, hframe⟩
  · rw [hoff]
    exact .refl _
  have hconnected : s.radio.connected sender receiver = true :=
    RadioMap.connected_iff.2 ⟨l, hl, hup⟩
  rw [if_pos hconnected]
  rcases hframe with ⟨radioState, -, rfl⟩ | ⟨extra, state, radioState, agenda, -, hagenda, rfl⟩
  · exact ⟨rfl, rfl, rfl, rfl, by simp only [Logbook.noteLost]; omega, fun _ => .inl⟩
  · have hflying : agenda.inFlight = s.agenda.inFlight + 1 := Agenda.inFlight_schedule hagenda
    refine ⟨rfl, rfl, rfl, rfl, by dsimp only; omega, fun e he => ?_⟩
    refine (Agenda.eq_of_mem_schedule hagenda he).imp_right fun heq => ?_
    rw [heq]
    rintro _ _ _ ⟨⟩
    exact ⟨hconnected, hmeant⟩

/-- The nodes that a message is sent to are the audience, and some whose link is not up. -/
theorem receivers_spec (s : Simulation) (sender : Address) (c : Control) :
    (∀ b ∈ s.receivers sender c, c.MeantFor b) ∧
      (s.receivers sender c).countP (s.radio.connected sender) =
        (s.radio.audience sender c).ncard := by
  have hall (hmeant : ∀ b, c.MeantFor b) :
      (s.radio.neighbors sender).countP (s.radio.connected sender) =
        (s.radio.audience sender c).ncard :=
    RadioMap.countP_connected (s.radio.nodup_neighbors sender) fun b hup =>
      ⟨fun _ => hmeant b, fun _ => RadioMap.mem_neighbors_iff.2 hup⟩
  cases c with
  | dio i l => exact ⟨fun _ _ => trivial, hall fun _ => trivial⟩
  | dis target =>
    cases target with
    | none => exact ⟨fun _ _ => trivial, hall fun _ => trivial⟩
    | some target =>
      exact ⟨fun b => List.mem_singleton.1,
        RadioMap.countP_connected (List.nodup_singleton _) fun b _ => List.mem_singleton⟩
  | dao i parent lifetime =>
    exact ⟨fun b => List.mem_singleton.1,
      RadioMap.countP_connected (List.nodup_singleton _) fun b _ => List.mem_singleton⟩

/-- Sending one thing after the other. -/
theorem aired_foldlM {α : Type} {f : Simulation → α → Checked Simulation} {l : List α}
    (said : α → List Control) (cost : RadioMap → α → Nat)
    (hf : ∀ x ∈ l, ∀ m m', f m x = .ok m' → Aired (said x) (cost m.radio x) m m')
    (h : l.foldlM f s = .ok s') : Aired (l.flatMap said) (l.map (cost s.radio)).sum s s' := by
  induction l generalizing s with
  | nil =>
    cases h
    exact .refl _
  | cons x l ih =>
    rw [List.foldlM_cons] at h
    obtain ⟨m, hm, h⟩ := Checked.bind_eq_ok_iff.1 h
    have hfirst := hf x List.mem_cons_self _ m hm
    have hrest := ih (fun y hy => hf y (List.mem_cons_of_mem x hy)) h
    rw [hfirst.radio] at hrest
    rw [List.flatMap_cons, List.map_cons, List.sum_cons]
    exact hfirst.trans hrest

theorem aired_transmit (h : s.transmit sender c = .ok s') :
    Aired [c] (s.radio.audience sender c).ncard s s' := by
  obtain ⟨hmeant, hcount⟩ := s.receivers_spec sender c
  have hnoted : Aired [c] 0 s { s with logbook := s.logbook.noteSent c } :=
    ⟨rfl, rfl, rfl, rfl, rfl, fun _ => .inl⟩
  have hframes :=
    aired_foldlM (fun _ => []) (fun radio b => if radio.connected sender b then 1 else 0)
      (fun b hb m m' => aired_sendFrame (hmeant b hb)) h
  rw [List.flatMap_eq_nil_iff.2 fun _ _ => rfl, sum_map_ite] at hframes
  rw [← hcount, ← Nat.zero_add (List.countP _ _)]
  exact hnoted.trans hframes

/-- What a station has queued goes on the air after a call. -/
theorem aired_settle (h : s.settle t = .ok s') :
    Aired t.node.outbox.toList (s.radio.frames t.messages) s s' := by
  obtain ⟨m, hm, h⟩ := Checked.bind_eq_ok_iff.1 h
  have hsent := aired_foldlM (fun c => [c]) (fun radio c => (radio.audience t.address c).ncard)
    (fun c _ m m' => aired_transmit) hm
  rw [List.flatMap_singleton'] at hsent
  have hplanned : Aired [] 0 m s' := by
    rcases planWake_eq_ok h with ⟨-, rfl⟩ | ⟨-, -, rfl⟩ | ⟨deadline, agenda, -, -, hagenda, rfl⟩
    · exact .refl _
    · exact ⟨rfl, rfl, rfl, rfl, rfl, fun _ => .inl⟩
    · have hflying : agenda.inFlight = m.agenda.inFlight := Agenda.inFlight_schedule hagenda
      refine ⟨rfl, rfl, rfl, rfl, congrArg _ hflying, fun e he => ?_⟩
      refine (Agenda.eq_of_mem_schedule hagenda he).imp_right fun heq => ?_
      rw [heq]
      rintro _ _ _ ⟨⟩
  have hall := hsent.trans hplanned
  rw [List.append_nil] at hall
  rw [RadioMap.frames, Station.messages, List.map_map]
  exact ⟨hall.radio, hall.sent, hall.delivered, hall.reports, hall.frames, hall.aimed⟩

end Simulation

end TrickleNet
