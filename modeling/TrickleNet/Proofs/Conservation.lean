import Mathlib
import TrickleNet.Proofs.Airing
import TrickleNet.Proofs.Sound
/-!
# No frame is lost track of

In a run of a simulation every message that is taken from a station is counted as sent, and every
frame that it costs is lost, has been delivered, is still in flight, or has come up for a node that
is no station (`frames_are_conserved`).

The account is kept move by move.  A move takes messages from the one station that it calls
(`Simulation.called?`, `Scene.messages`), and if it is an event it may take a frame from the agenda
(`Scene.frame?`), which arrives if its receiver is a station (`Scene.arrival?`) and is a stray
otherwise (`Scene.stray?`).  `Simulation.Booked` says what is entered for that into the logbook, on
the agenda and at the stations.  A report counts where it is addressed to, because frames go to
nobody else (`Simulation.Meant`).
-/

namespace TrickleNet

/-! ## The reports that a station counts -/

namespace Station

variable {t t' u : Station} {i : InstanceId} {now : Instant} {k l : Nat} {o : Operation}
  {params : TrickleParams} {sender : Address} {senderHop : Nat} {lookahead : Lookahead}
  {out : Outcome Station}

/-- A call into the station counts `k` more reports. -/
structure Counts (k : Nat) (t t' : Station) : Prop where
  address : t'.address = t.address
  count : t'.daosReceived = t.daosReceived + k

theorem Counts.refl (t : Station) : Counts 0 t t := ⟨rfl, rfl⟩

theorem Counts.trans (h : Counts k t t') (h' : Counts l t' u) : Counts (k + l) t u where
  address := h'.address.trans h.address
  count := by rw [h'.count, h.count, Nat.add_assoc]

theorem counts_perform (h : t.perform o now = .ok out) : Counts 0 t out.state := by
  obtain ⟨n, -, h⟩ := Checked.bind_eq_ok_iff.1 h
  cases h
  exact ⟨rfl, rfl⟩

theorem counts_demand (h : t.demand o now = .ok t') : Counts 0 t t' := by
  obtain ⟨out, hout, h⟩ := Checked.bind_eq_ok_iff.1 h
  cases h
  exact counts_perform hout

theorem Counts.andThen {o out : Outcome Station} {next : Station → Checked (Outcome Station)}
    (h : Counts 0 t o.state) (hout : o.andThen next = .ok out)
    (hnext : ∀ u v, next u = .ok v → Counts 0 u v.state) : Counts 0 t out.state := by
  unfold Outcome.andThen at hout
  split at hout
  · cases hout
    exact h
  · exact h.trans (hnext _ _ hout)

theorem counts_form (h : t.form i params now = .ok out) : Counts 0 t out.state := by
  obtain ⟨o, ho, h⟩ := Checked.bind_eq_ok_iff.1 h
  refine (counts_perform ho).andThen h fun u v hv => ?_
  cases hv
  exact ⟨rfl, rfl⟩

theorem counts_joinThrough (h : t.joinThrough sender senderHop i params now = .ok out) :
    Counts 0 t out.state := by
  obtain ⟨o₁, h₁, h⟩ := Checked.bind_eq_ok_iff.1 h
  obtain ⟨o₂, h₂, h⟩ := Checked.bind_eq_ok_iff.1 h
  obtain ⟨o₃, h₃, h⟩ := Checked.bind_eq_ok_iff.1 h
  have hhop (u : Station) (hop : Option Nat) : Counts 0 u { u with hop } := ⟨rfl, rfl⟩
  have hparent := (counts_perform h₁).andThen h₂ fun u v hv => (hhop u _).trans (counts_perform hv)
  have hprefer := hparent.andThen h₃ fun u v => counts_perform
  exact hprefer.andThen h fun u v => counts_perform

theorem counts_considerSender (h : t.considerSender sender senderHop i params now = .ok out) :
    Counts 0 t out.state := by
  unfold considerSender at h
  split at h
  · exact counts_joinThrough h
  split at h
  · obtain ⟨o, ho, h⟩ := Checked.bind_eq_ok_iff.1 h
    have hask := counts_perform ho
    cases h
    split
    · exact hask
    · exact hask
  · cases h
    exact .refl t

theorem counts_heardDio (h : t.heardDio sender senderHop i lookahead params now = .ok out) :
    Counts 0 t out.state := by
  obtain ⟨o₁, h₁, h⟩ := Checked.bind_eq_ok_iff.1 h
  obtain ⟨o₂, h₂, h⟩ := Checked.bind_eq_ok_iff.1 h
  have hclock : Counts 0 t (t.setClock now) := ⟨rfl, rfl⟩
  have hconsistent := (hclock.trans (counts_considerSender h₁)).andThen h₂ fun u v => counts_perform
  exact hconsistent.andThen h fun u v => counts_perform

theorem counts_heardDis (h : t.heardDis now = .ok t') : Counts 0 t t' := by
  have hclock : Counts 0 t (t.setClock now) := ⟨rfl, rfl⟩
  exact hclock.trans
    (Checked.foldlM_rel .refl (fun _ _ _ => .trans) (fun _ _ _ _ => counts_demand) h)

theorem counts_handleTimer (h : t.handleTimer now = .ok t') : Counts 0 t t' := counts_demand h

/-- A report counts where it is addressed to. -/
theorem counts_heardDao {reported : Bool} (h : t.heardDao t.address = .ok (reported, t')) :
    reported = true ∧ Counts 1 t t' := by
  unfold heardDao at h
  rw [if_pos rfl] at h
  obtain ⟨daosReceived, hup, h⟩ := Checked.bind_eq_ok_iff.1 h
  obtain ⟨rfl, -⟩ := addChecked_eq_ok_iff.1 hup
  cases h
  exact ⟨rfl, rfl, rfl⟩

end Station

/-- The node that a frame is for and what it says. -/
def Happening.frame? : Happening → Option (Address × Control)
  | .deliver _ receiver c => some (receiver, c)
  | .wake .. | .act .. => none

/-- The logbook once a frame has arrived. -/
def Logbook.noteArrival (b : Logbook) (f? : Option (Address × Control)) : Logbook :=
  { b with
    delivered := b.delivered + f?.toList.length
    daosReceived := b.daosReceived + f?.toList.countP fun f => f.2.isDao }

namespace Simulation

variable {s s' : Simulation} {xs : List Scene} {c : Move} {t t' : Station} {a : Address}
  {h : Happening} {time : Instant}

/-- The station is the only one that counts a report. -/
theorem counts_hear {sender : Address} {c : Control} {reported : Bool}
    (hmeant : c.MeantFor t.address) (h : s.hear t sender c = .ok (reported, t')) :
    reported = c.isDao ∧ Station.Counts (if c.isDao then 1 else 0) t t' := by
  cases c with
  | dio i l =>
    simp only [hear] at h
    split at h
    · cases h
      exact ⟨rfl, .refl t⟩
    · obtain ⟨out, hout, h⟩ := Checked.bind_eq_ok_iff.1 h
      cases h
      exact ⟨rfl, Station.counts_heardDio hout⟩
  | dis target =>
    obtain ⟨u, hu, h⟩ := Checked.bind_eq_ok_iff.1 h
    cases h
    exact ⟨rfl, Station.counts_heardDis hu⟩
  | dao i parent lifetime =>
    obtain rfl : t.address = parent := hmeant
    exact Station.counts_heardDao h

/-! ## What a move takes and what it gives -/

/-- The station that is called when something happens, as the call leaves it. -/
def handled? (s : Simulation) : Happening → Option Station
  | .deliver sender receiver c => do
    let t ← s.stations.find? receiver
    let (_, t) ← (s.hear t sender c).toOption
    return t
  | .wake a deadline => do
    let t ← s.stations.find? a
    if t.wake = some deadline then ({ t with wake := none }.handleTimer s.now).toOption else none
  | .act _ => none

/-- The station that a move calls, as the call leaves it. -/
def called? (s : Simulation) : Move → Option Station
  | .addStation seed => ((Station.new s.nextAddress seed s.now).start s.now).toOption
  | .form a => do
    let t ← s.stations.find? a
    let out ← (t.form simulatedInstance s.params s.now).toOption
    return out.state
  | .event => do
    let (slot, h, rest) ← s.agenda.next?
    (s.taken slot.time rest).handled? h
  | .plan .. | .act _ | .edit .. | .sampleEvery _ | .close _ => none

/-- A move with a call calls that station. -/
theorem Called.called?_eq (h : s.Called c t t') : s.called? c = some t' := by
  cases h with
  | start ht => rw [called?, ht, Except.toOption]
  | form ht hout => simp [called?, ht, hout, Except.toOption]
  | event hnext hhandled =>
    cases hhandled with
    | hear ht hhear => simp [called?, handled?, hnext, ht, hhear, Except.toOption]
    | wake ht hwake ht' => simp [called?, handled?, hnext, ht, hwake, ht', Except.toOption]

/-- The messages that are taken from the station that is called, each with its sender. -/
def Scene.messages (x : Scene) : List (Address × Control) :=
  ((x.before.called? x.move).map Station.messages).getD []

/-- How many frames these messages cost. -/
noncomputable def Scene.frames (x : Scene) : Nat := x.before.radio.frames x.messages

/-- The frame that comes up. -/
def Scene.frame? (x : Scene) : Option (Address × Control) :=
  match x.move with
  | .event => x.before.agenda.next?.bind fun e => e.2.1.frame?
  | _ => none

/-- The frame that comes up, if it is for a station. -/
def Scene.arrival? (x : Scene) : Option (Address × Control) :=
  x.frame?.filter fun f => x.before.stations.contains f.1

/-- The frame that comes up, if it is for a node that is no station. -/
def Scene.stray? (x : Scene) : Option (Address × Control) :=
  x.frame?.filter fun f => !x.before.stations.contains f.1

/-- How many reports a station has counted. -/
def reportsTo (s : Simulation) (a : Address) : Nat :=
  ((s.stations.find? a).map Station.daosReceived).getD 0

/-- Of these frames, the reports to a node. -/
def reportsIn (fs : List (Address × Control)) (a : Address) : Nat :=
  fs.countP fun f => decide (f.1 = a) && f.2.isDao

/-- What is entered when a station is called, if one is, with a frame that arrives, if one does. -/
structure Booked (s : Simulation) (t? : Option Station) (f? : Option (Address × Control))
    (s' : Simulation) : Prop where
  sent : s'.logbook.sent =
    (((t?.map Station.messages).getD []).map Prod.snd).foldl Traffic.add s.logbook.sent
  frames : s'.logbook.lost + s'.agenda.inFlight =
    s.logbook.lost + s.agenda.inFlight + s.radio.frames ((t?.map Station.messages).getD [])
  delivered : s'.logbook.delivered = s.logbook.delivered + f?.toList.length
  reports : s'.logbook.daosReceived =
    s.logbook.daosReceived + f?.toList.countP fun f => f.2.isDao
  stations : ∀ a, s'.reportsTo a = s.reportsTo a + reportsIn f?.toList a
  aimed : ∀ e ∈ s'.agenda.entries, e ∈ s.agenda.entries ∨ Aimed s.radio e.2

/-! ## Every move is booked -/

/-- Nothing is entered when no station is called and the agenda gains no frames. -/
theorem Booked.quiet (hsent : s'.logbook.sent = s.logbook.sent)
    (hlost : s'.logbook.lost = s.logbook.lost)
    (hdelivered : s'.logbook.delivered = s.logbook.delivered)
    (hreports : s'.logbook.daosReceived = s.logbook.daosReceived)
    (hstations : ∀ a, s'.reportsTo a = s.reportsTo a)
    (hflying : s'.agenda.inFlight = s.agenda.inFlight)
    (haimed : ∀ e ∈ s'.agenda.entries, e ∈ s.agenda.entries ∨ Aimed s.radio e.2) :
    Booked s none none s' where
  sent := hsent
  frames := by rw [hlost, hflying]; rfl
  delivered := hdelivered
  reports := hreports
  stations := hstations
  aimed := haimed

theorem Booked.refl (s : Simulation) : Booked s none none s :=
  .quiet rfl rfl rfl rfl (fun _ => rfl) rfl fun _ => .inl

/-- A regular snapshot is not in the books. -/
theorem Booked.sample {t? : Option Station} {f? : Option (Address × Control)}
    (h : Booked s t? f? s') : Booked s t? f? s'.sample := by
  obtain ⟨sampling, more, heq, -⟩ := s'.sample_eq
  rw [heq]
  exact ⟨h.sent, h.frames, h.delivered, h.reports, h.stations, h.aimed⟩

/-- A station that was called with a frame for it, or without one, is settled. -/
theorem booked_settle {f? : Option (Address × Control)}
    (hcount : t.daosReceived = s.reportsTo t.address + reportsIn f?.toList t.address)
    (hown : ∀ f ∈ f?, f.1 = t.address)
    (h : { s with logbook := s.logbook.noteArrival f? }.settle t = .ok s') :
    Booked s (some t) f? s' := by
  have haired := aired_settle h
  have hsettled := settled_of_settle h
  constructor
  case sent =>
    have hmessages : t.messages.map Prod.snd = t.node.outbox.toList := by
      rw [Station.messages, List.map_map]
      exact List.map_id _
    rw [haired.sent, Option.map_some, Option.getD_some, hmessages]
    rfl
  case frames => exact haired.frames
  case delivered => exact haired.delivered
  case reports => exact haired.reports
  case stations =>
    intro a
    rw [reportsTo, hsettled.stations, Table.find?_insert]
    split
    · rename_i ha
      rw [ha, ← hcount]
      rfl
    · rename_i ha
      have hnone : reportsIn f?.toList a = 0 := by
        refine List.countP_eq_zero.2 fun f hf hreport => ha ?_
        rw [← hown f (Option.mem_toList.1 hf)]
        simp only [Bool.and_eq_true, decide_eq_true_eq] at hreport
        exact hreport.1.symm
      rw [hnone]
      rfl
  case aimed => exact haired.aimed

theorem reportsTo_of_find? (ht : s.stations.find? a = some t) : s.reportsTo a = t.daosReceived := by
  rw [reportsTo, ht]
  rfl

/-- Frames are for nodes that they are meant for. -/
def Meant (s : Simulation) : Prop :=
  ∀ e ∈ s.agenda.entries, ∀ sender receiver c, e.2 = .deliver sender receiver c →
    c.MeantFor receiver

theorem booked_act (s : Simulation) (action : Action) : Booked s none none (s.act action) := by
  cases action with
  | disableLink | enableLink | setLoss | snapshot =>
    exact .quiet rfl rfl rfl rfl (fun _ => rfl) rfl fun _ => .inl
  | setReady b ready =>
    refine .quiet rfl rfl rfl rfl (fun a => ?_) rfl fun _ => .inl
    simp only [act, reportsTo, Table.find?_adjust]
    split
    · cases s.stations.find? a <;> rfl
    · rfl

theorem booked_happen (hs : s.Sound) (hmeant : ∀ sender receiver c, h = .deliver sender receiver c →
    c.MeantFor receiver) (hh : s.happen h = .ok s') :
    Booked s (s.handled? h) (h.frame?.filter fun f => s.stations.contains f.1) s' := by
  cases h with
  | deliver sender receiver c =>
    simp only [happen, deliver] at hh
    rw [Happening.frame?, Option.filter_some, handled?]
    split at hh
    · rename_i hnone
      cases hh
      rw [hnone, if_neg (by simp [Table.find?_eq_none_iff.1 hnone])]
      exact .refl s
    · rename_i t ht
      obtain ⟨⟨reported, t'⟩, hhear, hh⟩ := Checked.bind_eq_ok_iff.1 hh
      obtain rfl := hs.address receiver t ht
      obtain ⟨hreported, hcounts⟩ := counts_hear (hmeant sender _ c rfl) hhear
      rw [ht, if_pos (Table.contains_of_find? ht)]
      simp only [Option.bind_eq_bind, Option.bind_some, hhear, Except.toOption]
      refine booked_settle ?_ ?_ ?_
      · rw [hcounts.count, hcounts.address, reportsTo_of_find? ht]
        simp [reportsIn, List.countP_cons]
      · rintro _ ⟨⟩
        exact hcounts.address.symm
      · have hnoted :
            (if reported then s.logbook.noteDelivered.noteReport else s.logbook.noteDelivered) =
              s.logbook.noteArrival (some (t.address, c)) := by
          rw [hreported]
          cases hdao : c.isDao <;> simp [Logbook.noteArrival, hdao] <;> rfl
        rw [← hnoted]
        exact hh
  | wake a deadline =>
    simp only [happen, wake] at hh
    rw [Happening.frame?, Option.filter_none, handled?]
    split at hh
    · rename_i hnone
      cases hh
      rw [hnone]
      exact .refl s
    rename_i t ht
    rw [ht]
    simp only [Option.bind_eq_bind, Option.bind_some]
    split at hh
    · rename_i hwake
      obtain ⟨t', ht', hh⟩ := Checked.bind_eq_ok_iff.1 hh
      rw [if_pos hwake, ht']
      obtain rfl := hs.address a t ht
      have hcounts := Station.counts_handleTimer ht'
      refine booked_settle ?_ (by rintro _ ⟨⟩) hh
      rw [hcounts.count, hcounts.address, reportsTo_of_find? ht]
      rfl
    · rename_i hwake
      cases hh
      rw [if_neg hwake]
      exact .refl s
  | act action =>
    cases hh
    exact s.booked_act action

theorem booked_schedule {action : Action} (hs : s.schedule time (.act action) = .ok s') :
    Booked s none none s' := by
  obtain ⟨agenda, hagenda, hs⟩ := Checked.bind_eq_ok_iff.1 hs
  cases hs
  refine .quiet rfl rfl rfl rfl (fun _ => rfl) (Agenda.inFlight_schedule hagenda) fun e he => ?_
  refine (Agenda.eq_of_mem_schedule hagenda he).imp_right fun heq => ?_
  rw [heq]
  rintro _ _ _ ⟨⟩

/-- Every move is booked. -/
theorem booked_proceed (hs : s.Sound) (hmeant : s.Meant) (h : s.proceed c = .ok s') :
    Booked (s.opened c) (s.called? c) (Scene.arrival? ⟨s, c, s'⟩) s' := by
  cases c with
  | addStation seed =>
    obtain ⟨t, ht, h⟩ := Checked.bind_eq_ok_iff.1 h
    have hcounts := Station.counts_demand ht
    have hnew : s.reportsTo s.nextAddress = 0 := by rw [reportsTo, hs.find?_nextAddress]; rfl
    rw [(Called.start ht).called?_eq]
    refine booked_settle ?_ (by rintro _ ⟨⟩) h
    rw [hcounts.count, hcounts.address]
    exact hnew.symm
  | form a =>
    simp only [proceed, form] at h
    split at h
    · rename_i hnone
      cases h
      dsimp only [called?]
      rw [hnone]
      exact .refl s
    · rename_i t ht
      obtain ⟨out, hout, h⟩ := Checked.bind_eq_ok_iff.1 h
      obtain rfl := hs.address a t ht
      have hcounts := Station.counts_form hout
      rw [(Called.form ht hout).called?_eq]
      refine booked_settle ?_ (by rintro _ ⟨⟩) h
      rw [hcounts.count, hcounts.address]
      exact (reportsTo_of_find? ht).symm
  | plan time action => exact booked_schedule h
  | act action =>
    cases h
    exact s.booked_act action
  | edit radio params =>
    cases h
    exact .quiet rfl rfl rfl rfl (fun _ => rfl) rfl fun _ => .inl
  | sampleEvery every =>
    cases h
    exact .quiet rfl rfl rfl rfl (fun _ => rfl) rfl fun _ => .inl
  | event =>
    cases hnext : s.agenda.next? with
    | none =>
      rw [proceed, hnext] at h
      cases h
      simp only [opened, called?, Scene.arrival?, Scene.frame?, hnext]
      exact .refl s
    | some e =>
      obtain ⟨slot, happening, rest⟩ := e
      rw [proceed_event hnext] at h
      obtain ⟨m, hm, h⟩ := Checked.bind_eq_ok_iff.1 h
      cases h
      have htaken : (s.taken slot.time rest).Sound := by
        have hopened := hs.opened .event
        rwa [opened, hnext] at hopened
      have hfirst : (slot, happening) ∈ s.agenda.entries := by
        rw [(Agenda.next?_eq_some hnext).1]
        exact List.mem_cons_self
      simp only [opened, called?, Scene.arrival?, Scene.frame?, hnext]
      exact (booked_happen htaken (hmeant _ hfirst) hm).sample
  | close limit =>
    cases h
    rw [opened]
    split
    · exact .quiet rfl rfl rfl rfl (fun _ => rfl) rfl fun _ => .inl
    · exact .refl s

/-- The frame that comes up is no longer in flight. -/
theorem Scene.inFlight_opened (x : Scene) :
    (x.before.opened x.move).agenda.inFlight + x.frame?.toList.length =
      x.before.agenda.inFlight := by
  obtain ⟨s, c, s'⟩ := x
  cases c with
  | event =>
    cases hnext : s.agenda.next? with
    | none =>
      simp only [opened, Scene.frame?, hnext]
      rfl
    | some e =>
      obtain ⟨slot, happening, rest⟩ := e
      simp only [opened, Scene.frame?, hnext]
      rw [Agenda.inFlight, Agenda.inFlight, (Agenda.next?_eq_some hnext).1, List.countP_cons]
      cases happening <;> rfl
  | close limit =>
    simp only [opened]
    split <;> rfl
  | addStation | form | plan | act | edit | sampleEvery => rfl

theorem Scene.frame?_eq_some {x : Scene} {f : Address × Control} (hf : x.frame? = some f) :
    ∃ slot sender rest, x.move = .event ∧
      x.before.agenda.next? = some (slot, .deliver sender f.1 f.2, rest) := by
  obtain ⟨s, c, s'⟩ := x
  cases c with
  | event =>
    obtain ⟨⟨slot, happening, rest⟩, hnext, hframe⟩ := Option.bind_eq_some_iff.1 hf
    cases happening with
    | deliver sender receiver msg =>
      obtain rfl := Option.some.inj hframe
      exact ⟨slot, sender, rest, rfl, hnext⟩
    | wake | act => cases hframe
  | addStation | form | plan | act | edit | sampleEvery | close => cases hf

/-- A frame that comes up is for a station or it is not. -/
theorem Scene.length_frame? (x : Scene) :
    x.frame?.toList.length = x.arrival?.toList.length + x.stray?.toList.length := by
  unfold Scene.arrival? Scene.stray?
  cases x.frame? with
  | none => rfl
  | some f =>
    rw [Option.filter_some, Option.filter_some]
    cases x.before.stations.contains f.1 <;> rfl

/-! ## The balance of a run -/

/-- The books of a run balance. -/
structure Balanced (xs : List Scene) (s : Simulation) : Prop where
  sent : s.logbook.sent = ((xs.flatMap Scene.messages).map Prod.snd).foldl Traffic.add {}
  frames : (xs.map Scene.frames).sum = s.logbook.lost + s.logbook.delivered + s.agenda.inFlight +
    (xs.filterMap Scene.stray?).length
  delivered : s.logbook.delivered = (xs.filterMap Scene.arrival?).length
  reports : s.logbook.daosReceived = (xs.filterMap Scene.arrival?).countP fun f => f.2.isDao
  stations : ∀ a, s.reportsTo a = reportsIn (xs.filterMap Scene.arrival?) a
  meant : s.Meant
  arrived : ∀ f ∈ xs.filterMap Scene.arrival?, s.stations.contains f.1 = true ∧ f.2.MeantFor f.1

theorem balanced_new (seed : UInt64) : Balanced [] (.new seed) where
  sent := rfl
  frames := rfl
  delivered := rfl
  reports := rfl
  stations _ := rfl
  meant _ he := by cases he
  arrived _ hf := by cases hf

theorem filterMap_concat {α β : Type} (g : α → Option β) (l : List α) (x : α) :
    (l ++ [x]).filterMap g = l.filterMap g ++ (g x).toList := by
  rw [List.filterMap_append]
  cases hx : g x <;> simp [hx]

theorem Meant.proceed (hs : s.Sound) (hmeant : s.Meant) (h : s.proceed c = .ok s') : s'.Meant := by
  intro e he sender receiver msg heq
  rcases (booked_proceed hs hmeant h).aimed e he with he | haimed
  · exact hmeant e (mem_of_opened he) sender receiver msg heq
  · exact (haimed sender receiver msg heq).2

theorem Balanced.proceed (hb : Balanced xs s) (hs : s.Sound) (h : s.proceed c = .ok s') :
    Balanced (xs ++ [⟨s, c, s'⟩]) s' := by
  have hbook := booked_proceed hs hb.meant h
  have hlogbook := s.logbook_opened c
  have hmessages : ((s.called? c).map Station.messages).getD [] = Scene.messages ⟨s, c, s'⟩ := rfl
  constructor
  case sent =>
    rw [hbook.sent, hlogbook, hb.sent, hmessages, List.flatMap_append, List.map_append,
      List.foldl_append, List.flatMap_singleton]
  case frames =>
    have hsum : Scene.frames ⟨s, c, s'⟩ =
        (s.opened c).radio.frames (Scene.messages ⟨s, c, s'⟩) := by
      rw [radio_opened]
      rfl
    have hflying : (s.opened c).agenda.inFlight + (Scene.frame? ⟨s, c, s'⟩).toList.length =
        s.agenda.inFlight := Scene.inFlight_opened ⟨s, c, s'⟩
    have hcomes := Scene.length_frame? ⟨s, c, s'⟩
    have hframes := hbook.frames
    have hdelivered := hbook.delivered
    have hbalance := hb.frames
    rw [hlogbook] at hframes hdelivered
    rw [hmessages] at hframes
    rw [List.map_append, List.sum_append, filterMap_concat, List.length_append, List.map_singleton,
      List.sum_singleton, hsum]
    omega
  case delivered =>
    rw [hbook.delivered, hlogbook, hb.delivered, filterMap_concat, List.length_append]
  case reports =>
    rw [hbook.reports, hlogbook, hb.reports, filterMap_concat, List.countP_append]
  case stations =>
    intro a
    have hbefore : (s.opened c).reportsTo a = s.reportsTo a := by
      rw [reportsTo, stations_opened]
      rfl
    rw [hbook.stations, hbefore, hb.stations, filterMap_concat, reportsIn, reportsIn, reportsIn,
      List.countP_append]
  case meant => exact hb.meant.proceed hs h
  case arrived =>
    intro f hf
    rw [filterMap_concat, List.mem_append] at hf
    rcases hf with hf | hf
    · obtain ⟨hstation, hmeant⟩ := hb.arrived f hf
      exact ⟨contains_of_proceed h hstation, hmeant⟩
    · obtain ⟨hframe, hstation⟩ := Option.filter_eq_some_iff.1 (Option.mem_toList.1 hf)
      obtain ⟨slot, sender, rest, -, hnext⟩ := Scene.frame?_eq_some hframe
      refine ⟨contains_of_proceed h hstation, hb.meant (slot, _) ?_ sender f.1 f.2 rfl⟩
      rw [(Agenda.next?_eq_some hnext).1]
      exact List.mem_cons_self

theorem Run.balanced {seed : UInt64} (hrun : Run (.new seed) xs s) : Balanced xs s := by
  induction hrun with
  | start => exact balanced_new seed
  | move hrun hc ih => exact ih.proceed hrun.sound hc

/-- Reports to different stations are different reports. -/
theorem sum_reportsIn {fs : List (Address × Control)} {stations : List Address}
    (hnodup : stations.Nodup) (hmem : ∀ f ∈ fs, f.1 ∈ stations) :
    (stations.map (reportsIn fs)).sum = fs.countP fun f => f.2.isDao := by
  let m : Multiset Address := ((fs.filter fun f => f.2.isDao).map Prod.fst : List Address)
  have hcount (a : Address) : reportsIn fs a = m.count a := by
    rw [Multiset.coe_count, List.count_eq_countP, List.countP_map, List.countP_filter]
    rfl
  have hin : ∀ a ∈ m, a ∈ stations.toFinset := by
    intro a ha
    obtain ⟨f, hf, rfl⟩ := List.mem_map.1 (Multiset.mem_coe.1 ha)
    exact List.mem_toFinset.2 (hmem f (List.mem_filter.1 hf).1)
  calc (stations.map (reportsIn fs)).sum
      = ∑ a ∈ stations.toFinset, m.count a := by
        rw [← List.sum_toFinset _ hnodup]
        exact Finset.sum_congr rfl fun a _ => hcount a
    _ = m.card := Multiset.sum_count_eq_card hin
    _ = fs.countP fun f => f.2.isDao := by
        rw [Multiset.coe_card, List.length_map, List.countP_eq_length_filter]

theorem sum_reportsTo (s : Simulation) :
    (s.stations.values.map Station.daosReceived).sum = (s.stations.keys.map s.reportsTo).sum := by
  rw [Table.values, Table.keys, List.map_map, List.map_map]
  refine congrArg List.sum (List.map_congr_left fun e he => ?_)
  exact (reportsTo_of_find? (Table.find?_eq_some_iff.2 he)).symm

/-- Messages and frames are conserved, at the end of every run and hence at every moment of it.

The messages that were taken from stations are counted as sent, by type.  Each costs one frame for
each node that it is meant for and whose link to the sender is up when it is put on the air
(`RadioMap.audience`).  Of these frames some were lost, some were delivered to stations, some are in
flight, and the others came up for nodes that are no stations.  Reports are delivered to the parent
that they are addressed to only, and each delivery of a report is counted once, there and in the
logbook. -/
theorem frames_are_conserved {seed : UInt64} (hrun : Run (.new seed) xs s) :
    let messages := (xs.flatMap Scene.messages).map Prod.snd
    let arrivals := xs.filterMap Scene.arrival?
    (s.logbook.sent.dio = messages.countP Control.isDio ∧
      s.logbook.sent.dis = messages.countP Control.isDis ∧
      s.logbook.sent.dao = messages.countP Control.isDao) ∧
    (xs.map Scene.frames).sum = s.logbook.lost + s.logbook.delivered + s.agenda.inFlight +
      (xs.filterMap Scene.stray?).length ∧
    s.logbook.delivered = arrivals.length ∧
    s.logbook.daosReceived = (s.stations.values.map Station.daosReceived).sum ∧
    s.logbook.daosReceived = arrivals.countP (fun f => f.2.isDao) ∧
    (∀ a t, s.stations.find? a = some t →
      t.daosReceived = arrivals.countP fun f => decide (f.1 = a) && f.2.isDao) ∧
    ∀ f ∈ arrivals, ∀ i parent lifetime, f.2 = .dao i parent lifetime → f.1 = parent := by
  intro messages arrivals
  have hb := hrun.balanced
  have hsent : s.logbook.sent = _ := hb.sent.trans (Traffic.foldl_add messages {})
  have hsum : (s.stations.values.map Station.daosReceived).sum =
      arrivals.countP fun f => f.2.isDao := by
    rw [sum_reportsTo, List.map_congr_left fun a _ => hb.stations a]
    exact sum_reportsIn s.stations.nodup_keys fun f hf => Table.mem_keys_iff.2 (hb.arrived f hf).1
  refine ⟨?_, hb.frames, hb.delivered, hb.reports.trans hsum.symm, hb.reports, fun a t ht => ?_,
    fun f hf i parent lifetime heq => ?_⟩
  · rw [hsent]
    exact ⟨Nat.zero_add _, Nat.zero_add _, Nat.zero_add _⟩
  · rw [← reportsTo_of_find? ht]
    exact hb.stations a
  · have hmeant := (hb.arrived f hf).2
    rw [heq] at hmeant
    exact hmeant

/-- A root whose links lead to one station over which nothing is lost, to another over which
everything is lost, and to a node that is no station; then 23 events happen. -/
def lossy : List Move :=
  let radio :=
    ((RadioMap.addLink ∅ (.linkLocal 0) (.linkLocal 1) {}).addLink (.linkLocal 0) (.linkLocal 2)
      { loss := 1.0 }).addLink (.linkLocal 0) (.linkLocal 9) {}
  [.edit radio { minExponent := 12, doublings := 0 }, .addStation 1, .addStation 2, .addStation 3,
    .form (.linkLocal 0)] ++ List.replicate 23 .event

/-- Two advertisements, a solicitation and a report have cost six frames.  The advertisement of the
root alone cost three, of which one was lost and one came up for nobody. -/
theorem frames_are_conserved_when_lossy :
    ∃ xs s, record lossy (.new 42) = .ok (xs, s) ∧ s.logbook.sent = ⟨2, 1, 1⟩ ∧ s.logbook.lost = 2 ∧
      s.logbook.delivered = 3 ∧ s.logbook.daosReceived = 1 ∧
      (xs.filterMap Scene.stray?).length = 1 ∧
      (xs.map Scene.frames).sum = 6 ∧
      (xs.filterMap Scene.arrival?).countP (fun f => f.2.isDao) = 1 := by
  obtain ⟨xs, s, hrecord, hsent, hlost, hdelivered, hreports, hflying, hstray⟩ :
      ∃ xs s, record lossy (.new 42) = .ok (xs, s) ∧ s.logbook.sent = ⟨2, 1, 1⟩ ∧
        s.logbook.lost = 2 ∧
        s.logbook.delivered = 3 ∧ s.logbook.daosReceived = 1 ∧ s.agenda.inFlight = 0 ∧
        (xs.filterMap Scene.stray?).length = 1 :=
    ⟨_, _, rfl, rfl, rfl, rfl, rfl, rfl, rfl⟩
  obtain ⟨-, hframes, -, -, harrived, -⟩ := frames_are_conserved (run_of_record hrecord)
  rw [hlost, hdelivered, hflying, hstray] at hframes
  exact ⟨xs, s, hrecord, hsent, hlost, hdelivered, hreports, hstray, hframes,
    harrived.symm.trans hreports⟩

end Simulation

end TrickleNet
