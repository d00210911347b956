import Mathlib
import TrickleNet.Proofs.Scenes
/-!
# What all runs of a simulation keep

`Simulation.Sound` holds at the end of every run that starts with an empty simulation (`Run.sound`).
Stations keep to their addresses, which are the first link-local ones, so the address of the next
station is a new one (`Sound.find?_nextAddress`).  Between the calls they are at rest, and their
nodes are reachable and know of no instance but the simulated one.

In a sound simulation every call is of one of two kinds (`Sound.called`): the station makes at most
six plain requests, or the alarm that it waits for is due and it lets its alarms ring.
-/

namespace TrickleNet

theorem Address.index_linkLocal (i : UInt64) : (Address.linkLocal i).index = i := by
  apply UInt64.toBitVec_inj.1
  show (0xfe80#16 ++ 0#48 ++ i.toBitVec).setWidth 64 = i.toBitVec
  rw [BitVec.setWidth_append]
  simp

/-- Distinct 64-bit indices make distinct addresses. -/
theorem Address.linkLocal_inj {i j : Nat} (hi : i < wordLimit64) (hj : j < wordLimit64)
    (h : linkLocal (.ofNat i) = linkLocal (.ofNat j)) : i = j := by
  have hindex := congrArg (fun a => a.index.toNat) h
  rw [wordLimit64] at hi hj
  simp only [index_linkLocal, UInt64.toNat_ofNat'] at hindex
  omega

/-- A station at rest has nothing to collect and waits for its next alarm. -/
theorem Station.rested_eq_self_iff {t : Station} :
    t.rested = t ↔ t.node.trace = ∅ ∧ t.node.outbox = ∅ ∧ t.wake = t.node.nextWake? := by
  constructor
  · intro h
    rw [← h]
    exact ⟨rfl, rfl, rfl⟩
  · rintro ⟨htrace, houtbox, hwake⟩
    rw [rested, ← htrace, ← houtbox, ← hwake]

theorem Station.rested_rested (t : Station) : t.rested.rested = t.rested := rfl

namespace Simulation

/-- What every run keeps. -/
structure Sound (s : Simulation) : Prop where
  address : ∀ a t, s.stations.find? a = some t → t.address = a
  /-- Nothing that a station did waits to be collected. -/
  rested : ∀ a t, s.stations.find? a = some t → t.rested = t
  reachable : ∀ a t, s.stations.find? a = some t → t.node.Reachable .simulated
  /-- There is one instance. -/
  single : ∀ a t, s.stations.find? a = some t →
    ∀ i, t.node.dodags.contains i = true → i = simulatedInstance
  /-- Advertisements on their way are about that instance. -/
  flying : ∀ slot sender receiver i l,
    (slot, .deliver sender receiver (.dio i l)) ∈ s.agenda.entries → i = simulatedInstance
  /-- The stations have the first addresses. -/
  indexed : ∀ a, s.stations.contains a = true → ∃ i < s.stations.size, a = .linkLocal (.ofNat i)
  /-- The agenda has given out a number for each station. -/
  size_le : s.stations.size ≤ s.agenda.nextNumber
  number_lt : s.agenda.nextNumber < wordLimit64

variable {s s' : Simulation} {xs : List Scene} {c : Move} {t t' u : Station} {a : Address}

theorem sound_new (seed : UInt64) : (Simulation.new seed).Sound where
  address _ _ h := by cases h
  rested _ _ h := by cases h
  reachable _ _ h := by cases h
  single _ _ h := by cases h
  flying _ _ _ _ _ h := by cases h
  indexed _ h := by cases h
  size_le := Nat.le_refl _
  number_lt := by
    show 0 < wordLimit64
    decide

/-- The address of the next station is a new one. -/
theorem Sound.find?_nextAddress (hs : s.Sound) : s.stations.find? s.nextAddress = none := by
  rw [Table.find?_eq_none_iff, ← Bool.not_eq_true]
  intro hmem
  obtain ⟨i, hi, heq⟩ := hs.indexed _ hmem
  have hsize := hs.size_le
  have hnumber := hs.number_lt
  have := Address.linkLocal_inj (by omega) (by omega) heq
  omega

/-- Neither the present nor what is taken from the agenda has a part in it. -/
theorem Sound.congr (hs : s.Sound) (hstations : s'.stations = s.stations)
    (hentries : ∀ e ∈ s'.agenda.entries, e ∈ s.agenda.entries)
    (hnumber : s'.agenda.nextNumber = s.agenda.nextNumber) : s'.Sound where
  address := by
    rw [hstations]
    exact hs.address
  rested := by
    rw [hstations]
    exact hs.rested
  reachable := by
    rw [hstations]
    exact hs.reachable
  single := by
    rw [hstations]
    exact hs.single
  flying slot sender receiver i l h := hs.flying slot sender receiver i l (hentries _ h)
  indexed := by
    rw [hstations]
    exact hs.indexed
  size_le := by
    rw [hstations, hnumber]
    exact hs.size_le
  number_lt := by
    rw [hnumber]
    exact hs.number_lt

theorem Sound.opened (hs : s.Sound) (c : Move) : (s.opened c).Sound := by
  cases c with
  | event =>
    rw [Simulation.opened]
    cases hnext : s.agenda.next? with
    | none => exact hs
    | some e =>
      obtain ⟨slot, h, rest⟩ := e
      obtain ⟨hentries, hnumber⟩ := Agenda.next?_eq_some hnext
      refine hs.congr rfl (fun e he => ?_) hnumber
      rw [hentries]
      exact List.mem_cons_of_mem _ he
  | close limit =>
    rw [Simulation.opened]
    split
    · exact hs.congr rfl (fun _ he => he) rfl
    · exact hs
  | addStation | form | plan | act | edit | sampleEvery => exact hs

/-- A quiet move leaves each station what it was, except perhaps for the readiness of its
address. -/
theorem Quiet.find? (h : s.Quiet s') (ht : s'.stations.find? a = some t') :
    ∃ t, s.stations.find? a = some t ∧ (t' = t ∨ ∃ ready, t' = t.setReady ready) := by
  rcases h.stations with hsame | ⟨b, ready, hstations⟩
  · exact ⟨t', by rwa [hsame] at ht, .inl rfl⟩
  · rw [hstations, Table.find?_adjust] at ht
    split at ht
    · obtain ⟨t, hfind, rfl⟩ := Option.map_eq_some_iff.1 ht
      exact ⟨t, hfind, .inr ⟨ready, rfl⟩⟩
    · exact ⟨t', ht, .inl rfl⟩

theorem Quiet.keys_eq (h : s.Quiet s') : s'.stations.keys = s.stations.keys := by
  rcases h.stations with hsame | ⟨b, ready, hstations⟩
  · rw [hsame]
  · rw [hstations, Table.keys_adjust]

theorem Sound.quiet (hs : s.Sound) (h : s.Quiet s') : s'.Sound := by
  have hsize : s'.stations.size = s.stations.size := by
    rw [← Table.length_keys, h.keys_eq, Table.length_keys]
  constructor
  case address =>
    intro a t' ht'
    obtain ⟨t, ht, rfl | ⟨ready, rfl⟩⟩ := h.find? ht'
    · exact hs.address a t' ht
    · exact hs.address a t ht
  case rested =>
    intro a t' ht'
    obtain ⟨t, ht, rfl | ⟨ready, rfl⟩⟩ := h.find? ht'
    · exact hs.rested a t' ht
    · obtain ⟨htrace, houtbox, hwake⟩ := Station.rested_eq_self_iff.1 (hs.rested a t ht)
      exact Station.rested_eq_self_iff.2 ⟨htrace, houtbox, hwake⟩
  case reachable =>
    intro a t' ht'
    obtain ⟨t, ht, rfl | ⟨ready, rfl⟩⟩ := h.find? ht'
    · exact hs.reachable a t' ht
    · exact (hs.reachable a t ht).sameCore (Node.sameCore_addressReady _ ready)
  case single =>
    intro a t' ht'
    obtain ⟨t, ht, rfl | ⟨ready, rfl⟩⟩ := h.find? ht'
    · exact hs.single a t' ht
    · exact hs.single a t ht
  case flying =>
    intro slot sender receiver i l hmem
    rcases h.agenda.added _ hmem with hmem | ⟨action, haction⟩
    · exact hs.flying slot sender receiver i l hmem
    · cases haction
  case indexed =>
    intro a ha
    rw [hsize]
    refine hs.indexed a ?_
    rwa [← Table.mem_keys_iff, h.keys_eq, Table.mem_keys_iff] at ha
  case size_le =>
    rw [hsize]
    exact hs.size_le.trans h.agenda.number_le
  case number_lt => exact h.agenda.number_lt hs.number_lt

/-! ## Calls -/

/-- A station that is called has just been switched on, or it is there already. -/
theorem Called.before (h : s.Called c t t') (hs : s.Sound) :
    (∃ seed, c = .addStation seed ∧ t = .new s.nextAddress seed s.now) ∨
      ∃ u, s.stations.find? t.address = some u ∧ (t = u ∨ t = { u with wake := none }) := by
  cases h with
  | start => exact .inl ⟨_, rfl, rfl⟩
  | @form a t out ht =>
    refine .inr ⟨t, ?_, .inl rfl⟩
    rw [hs.address a t ht]
    exact ht
  | event hnext hhandled =>
    right
    cases hhandled with
    | @hear sender receiver c t t' reported ht =>
      refine ⟨t, ?_, .inl rfl⟩
      rw [hs.address receiver t ht]
      exact ht
    | @wake a deadline t t' ht =>
      refine ⟨t, ?_, .inr rfl⟩
      rw [show Station.address { t with wake := none } = a from hs.address a t ht]
      exact ht

/-- A station that is called is a reachable node with nothing to collect, and knows of no instance
but the simulated one. -/
theorem Called.fresh (h : s.Called c t t') (hs : s.Sound) :
    t.node.Reachable .simulated ∧ t.node.trace = ∅ ∧ t.node.outbox = ∅ ∧
      ∀ i, t.node.dodags.contains i = true → i = simulatedInstance := by
  rcases h.before hs with ⟨seed, -, rfl⟩ | ⟨u, hu, rfl | rfl⟩
  · exact ⟨Node.reachable_new _ _ _ _, rfl, rfl, fun i hi => by cases hi⟩
  · obtain ⟨htrace, houtbox, -⟩ := Station.rested_eq_self_iff.1 (hs.rested _ _ hu)
    exact ⟨hs.reachable _ _ hu, htrace, houtbox, hs.single _ _ hu⟩
  · obtain ⟨htrace, houtbox, -⟩ := Station.rested_eq_self_iff.1 (hs.rested _ _ hu)
    exact ⟨hs.reachable _ u hu, htrace, houtbox, hs.single _ u hu⟩

/-- An advertisement that is delivered is about the simulated instance. -/
theorem Sound.inst_of_dio {slot : Agenda.Slot} {sender receiver : Address} {i : InstanceId}
    {l : Lookahead} {rest : Agenda} (hs : s.Sound)
    (hnext : s.agenda.next? = some (slot, .deliver sender receiver (.dio i l), rest)) :
    i = simulatedInstance := by
  refine hs.flying slot sender receiver i l ?_
  rw [(Agenda.next?_eq_some hnext).1]
  exact List.mem_cons_self

/-- A station that is called makes a few plain requests, or the alarm that it waits for is due and
it lets its alarms ring. -/
theorem Sound.called (hs : s.Sound) (h : s.Called c t t') :
    (∃ k ≤ 6, t.Asks simulatedInstance (s.opened c).now k t') ∧
        (∀ a deadline, ¬s.Wakes c a deadline) ∨
      ∃ deadline u, s.Wakes c t.address deadline ∧ s.stations.find? t.address = some u ∧
        u.wake = some deadline ∧ t = { u with wake := none } ∧
        t.handleTimer (s.opened c).now = .ok t' := by
  have hfresh := h.fresh hs
  cases h with
  | start ht =>
    exact .inl ⟨⟨1, by omega, Station.asks_start ht⟩, fun _ _ hwakes => by cases hwakes.1⟩
  | form ht hout =>
    exact .inl ⟨⟨1, by omega, Station.asks_form hout⟩, fun _ _ hwakes => by cases hwakes.1⟩
  | @event slot happening rest t t' hnext hhandled =>
    have hopened : s.opened .event = s.taken slot.time rest := by rw [Simulation.opened, hnext]
    rw [hopened]
    cases hhandled with
    | @hear sender receiver c t t' reported ht hhear =>
      left
      refine ⟨?_, ?_⟩
      swap
      · rintro a deadline ⟨-, slot', rest', hsome⟩
        cases hnext.symm.trans hsome
      cases c with
      | dio i l =>
        obtain rfl := hs.inst_of_dio hnext
        simp only [hear] at hhear
        split at hhear
        · cases hhear
          exact ⟨0, by omega, .refl _⟩
        · obtain ⟨out, hout, hhear⟩ := Checked.bind_eq_ok_iff.1 hhear
          cases hhear
          exact ⟨6, by omega, Station.asks_heardDio hout⟩
      | dis target =>
        obtain ⟨u, hu, hhear⟩ := Checked.bind_eq_ok_iff.1 hhear
        cases hhear
        have hsize : t.node.dodags.size ≤ 4 := hfresh.1.orderly.instances
        exact ⟨_, by omega, Station.asks_heardDis hfresh.2.2.2 hu⟩
      | dao i parent lifetime => exact ⟨0, by omega, Station.asks_heardDao hhear⟩
    | @wake a deadline u t' hu hwake ht' =>
      obtain rfl := hs.address a u hu
      exact .inr ⟨deadline, u, ⟨rfl, slot, rest, hnext⟩, hu, hwake, rfl, ht'⟩

/-- What a call keeps of a station. -/
theorem Sound.after_call (hs : s.Sound) (h : s.Called c t t') :
    t'.address = t.address ∧ t'.node.Reachable .simulated ∧
      (∀ i, t'.node.dodags.contains i = true → i = simulatedInstance) ∧
      ∀ i l, .dio i l ∈ t'.node.outbox.toList → i = simulatedInstance := by
  obtain ⟨hreach, -, houtbox, hsingle⟩ := h.fresh hs
  rcases hs.called h with ⟨⟨k, -, hasks⟩, -⟩ | ⟨-, -, -, -, -, -, ht'⟩
  · refine ⟨hasks.address, hasks.reachable hreach, fun i hi => ?_, fun i l hmem => ?_⟩
    · by_contra hne
      rw [Table.contains, hasks.find?_eq hne] at hi
      exact hne (hsingle i hi)
    · rw [hasks.outbox_eq, houtbox] at hmem
      cases hmem
  · obtain ⟨n, ms, rfl, hn, hrung, -, horderly⟩ := Station.rung_of_handleTimer hreach ht'
    refine ⟨rfl, hn, fun i hi => ?_, fun i l hmem => ?_⟩
    · exact hsingle i (((hrung.keeps horderly).joined i).symm.trans hi)
    · rcases hrung.joined_of_dio horderly hmem with hmem | hi
      · have hempty : .dio i l ∈ t.node.outbox.toList := hmem
        rw [houtbox] at hempty
        cases hempty
      · exact hsingle i hi

/-- A station that was switched on waits for its first alarm. -/
theorem nextWake?_of_start {seed : UInt64} {now : Instant}
    (h : (Station.new a seed now).start now = .ok t) : ∃ d, t.node.nextWake? = some d := by
  cases h
  exact ⟨_, rfl⟩

/-- The stations before and after a call that was settled. -/
theorem Settled.find? (h : s.Settled t s') {u : Station} (hu : s'.stations.find? a = some u) :
    a = t.address ∧ u = t.rested ∨ a ≠ t.address ∧ s.stations.find? a = some u := by
  rw [h.stations, Table.find?_insert] at hu
  split at hu
  · rename_i ha
    exact .inl ⟨ha, (Option.some.inj hu).symm⟩
  · rename_i ha
    exact .inr ⟨ha, hu⟩

/-- Before a call, at most the present is moved on and an event is taken from the agenda. -/
theorem opened_eq (s : Simulation) (c : Move) :
    ∃ now agenda, s.opened c = { s with now, agenda } := by
  cases c with
  | event =>
    rw [opened]
    split
    · exact ⟨_, _, rfl⟩
    · exact ⟨_, _, rfl⟩
  | close limit =>
    rw [opened]
    split
    · exact ⟨_, _, rfl⟩
    · exact ⟨_, _, rfl⟩
  | addStation | form | plan | act | edit | sampleEvery => exact ⟨_, _, rfl⟩

theorem stations_opened (s : Simulation) (c : Move) : (s.opened c).stations = s.stations := by
  obtain ⟨now, agenda, h⟩ := s.opened_eq c
  rw [h]

theorem logbook_opened (s : Simulation) (c : Move) : (s.opened c).logbook = s.logbook := by
  obtain ⟨now, agenda, h⟩ := s.opened_eq c
  rw [h]

theorem radio_opened (s : Simulation) (c : Move) : (s.opened c).radio = s.radio := by
  obtain ⟨now, agenda, h⟩ := s.opened_eq c
  rw [h]

/-- The agenda that a call finds holds nothing new. -/
theorem mem_of_opened {e : Agenda.Slot × Happening} (he : e ∈ (s.opened c).agenda.entries) :
    e ∈ s.agenda.entries := by
  cases c with
  | event =>
    rw [opened] at he
    cases hnext : s.agenda.next? with
    | none => rwa [hnext] at he
    | some x =>
      obtain ⟨slot, h, rest⟩ := x
      rw [hnext] at he
      rw [(Agenda.next?_eq_some hnext).1]
      exact List.mem_cons_of_mem _ he
  | close limit =>
    rw [opened] at he
    split at he <;> exact he
  | addStation | form | plan | act | edit | sampleEvery => exact he

/-- A station after a move was there before it, and at most its address has become usable or no
longer is, or it was called and is at rest now. -/
theorem station_of_proceed (h : s.proceed c = .ok s') (hu : s'.stations.find? a = some u) :
    (∃ v, s.stations.find? a = some v ∧ (u = v ∨ ∃ ready, u = v.setReady ready)) ∨
      ∃ t t', s.Called c t t' ∧ a = t'.address ∧ u = t'.rested := by
  rcases proceed_eq_ok h with ⟨hquiet, -⟩ | ⟨t, t', hcalled, hsettled⟩
  · left
    rw [← stations_opened s c]
    exact hquiet.find? hu
  · obtain ⟨ha, hrested⟩ | ⟨-, hu⟩ := hsettled.find? hu
    · exact .inr ⟨t, t', hcalled, ha, hrested⟩
    · rw [stations_opened] at hu
      exact .inl ⟨u, hu, .inl rfl⟩

/-- Stations are never switched off. -/
theorem contains_of_proceed (h : s.proceed c = .ok s') (ha : s.stations.contains a = true) :
    s'.stations.contains a = true := by
  rcases proceed_eq_ok h with ⟨hquiet, -⟩ | ⟨t, t', -, hsettled⟩
  · rw [← Table.mem_keys_iff, hquiet.keys_eq, stations_opened, Table.mem_keys_iff]
    exact ha
  · rw [hsettled.stations, stations_opened, Table.contains_insert, ha, Bool.or_true]

/-- A station that was called was there before, or it takes the next address, and the agenda has
given out a number for its first alarm. -/
theorem Sound.keys_settled (hs : s.Sound) (h : s.Called c t t')
    (hsettled : (s.opened c).Settled t' s') :
    s'.stations.keys = s.stations.keys ∨
      t'.address = s.nextAddress ∧ s'.stations.size = s.stations.size + 1 ∧
        s.agenda.nextNumber < s'.agenda.nextNumber := by
  obtain ⟨haddress, -⟩ := hs.after_call h
  have hstations := hsettled.stations
  rw [stations_opened] at hstations
  rcases h.before hs with ⟨seed, rfl, rfl⟩ | ⟨u, hu, -⟩
  · right
    refine ⟨haddress, ?_, ?_⟩
    · rw [hstations, Table.size_insert]
      rw [haddress]
      exact hs.find?_nextAddress
    · obtain ⟨d, hd⟩ : ∃ d, t'.node.nextWake? = some d := by
        cases h with
        | start ht => exact nextWake?_of_start ht
      refine (hsettled.planned d hd ?_).1
      cases h with
      | start ht =>
        rw [(Station.asks_start (i := simulatedInstance) ht).wake]
        simp [Station.new]
  · left
    rw [hstations, Table.keys_insert]
    rw [haddress]
    exact Table.contains_of_find? hu

theorem Sound.settled (hs : s.Sound) (h : s.Called c t t') (hsettled : (s.opened c).Settled t' s') :
    s'.Sound := by
  have hopened := hs.opened c
  obtain ⟨haddress, hreach, hsingle, hdio⟩ := hs.after_call h
  constructor
  case address =>
    intro a u hu
    obtain ⟨rfl, rfl⟩ | ⟨-, hu⟩ := hsettled.find? hu
    · rfl
    · exact hopened.address a u hu
  case rested =>
    intro a u hu
    obtain ⟨rfl, rfl⟩ | ⟨-, hu⟩ := hsettled.find? hu
    · exact t'.rested_rested
    · exact hopened.rested a u hu
  case reachable =>
    intro a u hu
    obtain ⟨rfl, rfl⟩ | ⟨-, hu⟩ := hsettled.find? hu
    · exact hreach.sameCore ⟨rfl, rfl, rfl, rfl, rfl, rfl, rfl, rfl⟩
    · exact hopened.reachable a u hu
  case single =>
    intro a u hu
    obtain ⟨rfl, rfl⟩ | ⟨-, hu⟩ := hsettled.find? hu
    · exact hsingle
    · exact hopened.single a u hu
  case flying =>
    intro slot sender receiver i l hmem
    rcases hsettled.agenda.added _ hmem with hmem | ⟨receiver', msg, hmsg, heq, -⟩ | ⟨d, -, heq, -⟩
    · exact hopened.flying slot sender receiver i l hmem
    · cases heq
      exact hdio i l hmsg
    · cases heq
  case indexed =>
    intro a ha
    rcases hs.keys_settled h hsettled with hkeys | ⟨hnext, hsize, -⟩
    · rw [← Table.length_keys, hkeys, Table.length_keys]
      refine hs.indexed a ?_
      rwa [← Table.mem_keys_iff, hkeys, Table.mem_keys_iff] at ha
    · obtain ⟨u, hu⟩ := Table.contains_iff.1 ha
      obtain ⟨rfl, -⟩ | ⟨-, hu⟩ := hsettled.find? hu
      · exact ⟨s.stations.size, by omega, hnext⟩
      · rw [stations_opened] at hu
        obtain ⟨i, hi, rfl⟩ := hs.indexed a (Table.contains_of_find? hu)
        exact ⟨i, by omega, rfl⟩
  case size_le =>
    rcases hs.keys_settled h hsettled with hkeys | ⟨-, hsize, hlt⟩
    · rw [← Table.length_keys, hkeys, Table.length_keys, ← stations_opened s c]
      exact hopened.size_le.trans hsettled.agenda.number_le
    · have hle := hs.size_le
      omega
  case number_lt => exact hsettled.agenda.number_lt hopened.number_lt

/-- Every move keeps a simulation sound. -/
theorem Sound.proceed (hs : s.Sound) (h : s.proceed c = .ok s') : s'.Sound := by
  rcases proceed_eq_ok h with ⟨hquiet, -⟩ | ⟨t, t', hcalled, hsettled⟩
  · exact (hs.opened c).quiet hquiet
  · exact hs.settled hcalled hsettled

/-- What runs of an empty simulation come to is sound. -/
theorem Run.sound {seed : UInt64} (hrun : Run (.new seed) xs s) : s.Sound :=
  hrun.invariant (fun _ _ _ hs h => hs.proceed h) (sound_new seed)

/-- What every move keeps of a sound simulation holds at the end of a run. -/
theorem Run.invariant_of_sound {seed : UInt64} {I : Simulation → Prop} (hrun : Run (.new seed) xs s)
    (hstep : ∀ s c s', s.Sound → I s → s.proceed c = .ok s' → I s') (h₀ : I (.new seed)) : I s := by
  induction hrun with
  | start => exact h₀
  | move hrun hc ih => exact hstep _ _ _ hrun.sound ih hc

end Simulation

end TrickleNet
