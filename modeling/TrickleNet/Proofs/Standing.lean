import Mathlib
import TrickleNet.Proofs.Sound
/-!
# Where a station stands

The `Standing` of a node in an instance is its preferred parent and its candidate parents.  Most
requests and all alarms leave it alone (`Node.Keeps.standing?_eq`), so in a simulation it changes in
three ways only: a station becomes a root, it joins through the first advertisement that it hears,
or it takes one more candidate parent that is closer to the root.  `Simulation.Takes` lists them,
and `Sound.takes` shows that there are no others.
-/

namespace TrickleNet

/-- The parents of a node in an instance. -/
structure Standing where
  /-- The preferred one. -/
  preferred : Option Address
  /-- The candidates. -/
  parents : List Address

/-- Where the node stands in the instance. -/
def Dodag.standing (d : Dodag) : Standing := ⟨d.preferred, d.parents.keys⟩

namespace Node

variable {ρ : Type} {p : Platform} {n m : Node ρ} {i : InstanceId} {a : Address} {now : Instant}

/-- Where the node stands in an instance that it belongs to. -/
def standing? (n : Node ρ) (i : InstanceId) : Option Standing :=
  (n.dodags.find? i).map Dodag.standing

theorem standing?_eq_none_iff : n.standing? i = none ↔ n.dodags.contains i = false := by
  rw [standing?, Option.map_eq_none_iff, Table.find?_eq_none_iff]

theorem standing?_eq_some_iff {st : Standing} :
    n.standing? i = some st ↔
      ∃ d, n.dodags.find? i = some d ∧ d.preferred = st.preferred ∧
        d.parents.keys = st.parents := by
  rw [standing?, Option.map_eq_some_iff]
  constructor
  · rintro ⟨d, hd, rfl⟩
    exact ⟨d, hd, rfl, rfl⟩
  · rintro ⟨d, hd, hpref, hparents⟩
    exact ⟨d, hd, by rw [Dodag.standing, hpref, hparents]⟩

/-- What keeps a node going leaves it where it stands. -/
theorem Keeps.standing?_eq (h : n.Keeps p m) (i : InstanceId) : m.standing? i = n.standing? i := by
  cases hd : m.dodags.find? i with
  | none =>
    have hnone : n.dodags.find? i = none := by
      rw [Table.find?_eq_none_iff] at hd ⊢
      rw [← h.joined, hd]
    rw [standing?, standing?, hd, hnone]
  | some d' =>
    obtain ⟨d, hd', hkeeps⟩ := h.find? hd
    rw [standing?, standing?, hd, hd', Option.map_some, Option.map_some, Dodag.standing,
      Dodag.standing, hkeeps.preferred, hkeeps.parents]

/-! ## Requests that choose parents -/

theorem keys_insert_of_keys_eq_nil {d : Dodag} (h : d.parents.keys = []) (w : Watch) :
    (d.parents.insert a w).keys = [a] := by
  have hempty : d.parents.toList = [] := List.map_eq_nil_iff.1 h
  show (Table.place a w d.parents.toList).map Prod.fst = [a]
  rw [hempty]
  rfl

/-- The first candidate parent is taken. -/
theorem addParent_first (h : n.standing? i = some ⟨none, []⟩) (hroom : 0 < p.maxParents) :
    ∃ m, addParent p n i a = .granted m ∧ m.standing? i = some ⟨none, [a]⟩ := by
  obtain ⟨d, hd, hpref, hkeys⟩ := standing?_eq_some_iff.1 h
  have hnew : ¬d.parents.contains a = true := by
    rw [← Table.mem_keys_iff, hkeys]
    exact List.not_mem_nil
  have hsize : ¬p.maxParents ≤ d.parents.size := by
    rw [← Table.length_keys, hkeys, List.length_nil]
    omega
  refine ⟨_, by rw [addParent, hd]; exact (if_neg hnew).trans (if_neg hsize), ?_⟩
  refine standing?_eq_some_iff.2 ⟨{ d with parents := d.parents.insert a {} }, ?_, hpref, ?_⟩
  · simp [putDodag]
  · exact keys_insert_of_keys_eq_nil hkeys {}

/-- A candidate parent may be preferred. -/
theorem setPreferred_first (h : n.standing? i = some ⟨none, [a]⟩) :
    ∃ m, n.setPreferred i (some a) = .granted m ∧ m.standing? i = some ⟨some a, [a]⟩ := by
  obtain ⟨d, hd, hpref, hkeys⟩ := standing?_eq_some_iff.1 h
  have hcandidate : d.parents.contains a = true := by
    rw [← Table.mem_keys_iff, hkeys]
    exact List.mem_singleton_self a
  refine ⟨n.putDodag i { d with preferred := some a }, ?_, ?_⟩
  · simp [setPreferred, hd, hpref, hcandidate]
  · exact standing?_eq_some_iff.2 ⟨{ d with preferred := some a }, by simp [putDodag], rfl, hkeys⟩

/-- Registering a candidate adds at most that one. -/
theorem standing?_addParent {st : Standing} (h : n.standing? i = some st) :
    ∃ parents, (addParent p n i a).state.standing? i = some ⟨st.preferred, parents⟩ ∧
      ∀ q ∈ parents, q ∈ st.parents ∨ q = a := by
  obtain ⟨d, hd, hpref, hkeys⟩ := standing?_eq_some_iff.1 h
  have hsame : ∃ parents, n.standing? i = some ⟨st.preferred, parents⟩ ∧
      ∀ q ∈ parents, q ∈ st.parents ∨ q = a := ⟨st.parents, h, fun q hq => .inl hq⟩
  simp only [addParent, hd]
  split
  · exact hsame
  split
  · exact hsame
  · refine ⟨(d.parents.insert a {}).keys, ?_, fun q hq => ?_⟩
    · exact standing?_eq_some_iff.2
        ⟨{ d with parents := d.parents.insert a {} }, by simp [putDodag], hpref, rfl⟩
    · rw [Table.mem_keys_iff, Table.contains_insert, Bool.or_eq_true, decide_eq_true_eq] at hq
      rcases hq with rfl | hq
      · exact .inr rfl
      · left
        rwa [← hkeys, Table.mem_keys_iff]

variable [RandomSource ρ]

/-- A request to join is refused, or the node has joined and knows no parent yet. -/
theorem standing?_join {params : TrickleParams} {out : Outcome (Node ρ)}
    (h : join p n i params now = .ok out) :
    out.refusal.isSome = true ∧ out.state = n ∨
      out.refusal = none ∧ n.standing? i = none ∧ out.state.standing? i = some ⟨none, []⟩ := by
  unfold join at h
  split at h
  · cases h
    exact .inl ⟨rfl, rfl⟩
  rename_i hvalid
  split at h
  · cases h
    exact .inl ⟨rfl, rfl⟩
  rename_i hnew
  split at h
  · cases h
    exact .inl ⟨rfl, rfl⟩
  right
  have hfind : (n.putDodag i (.new params)).dodags.find? i = some (.new params) := by
    simp [putDodag]
  simp only [resetDio, hfind, Bool.not_true, Bool.false_and, Bool.false_eq_true, if_false] at h
  obtain ⟨k, hk, h⟩ := Checked.bind_eq_ok_iff.1 h
  obtain ⟨m, hm, h⟩ := Checked.bind_eq_ok_iff.1 h
  cases h
  obtain ⟨d', listen, -, hpref, hparents, hdodags, -⟩ := restarted (not_not.1 hvalid) hk hm
  refine ⟨rfl, standing?_eq_none_iff.2 (by simpa using hnew), ?_⟩
  refine standing?_eq_some_iff.2 ⟨d', ?_, hpref, ?_⟩
  · rw [Outcome.state_granted, hdodags, Table.find?_insert, if_pos rfl]
  · rw [hparents]
    rfl

end Node

/-! ## Calls into a station -/

namespace Station

variable {t t' u : Station} {o : Operation} {now : Instant} {out : Outcome Station}
  {sender : Address} {senderHop : Nat} {params : TrickleParams} {l : Lookahead}

/-- Where the station stands in the simulated instance. -/
def standing? (t : Station) : Option Standing := t.node.standing? simulatedInstance

/-- The station stands where it stood. -/
def Stays (t t' : Station) : Prop := t'.hop = t.hop ∧ t'.standing? = t.standing?

theorem Stays.refl (t : Station) : t.Stays t := ⟨rfl, rfl⟩

theorem Stays.trans (h : t.Stays t') (h' : t'.Stays u) : t.Stays u :=
  ⟨h'.1.trans h.1, h'.2.trans h.2⟩

theorem perform_eq_ok (h : t.perform o now = .ok out) :
    ∃ on, Node.perform .simulated { t.node with clock := now } o now = .ok on ∧
      out = on.map fun node => { t with node } := by
  obtain ⟨on, hon, h⟩ := Checked.bind_eq_ok_iff.1 h
  cases h
  exact ⟨on, hon, rfl⟩

/-- A request that keeps the node going leaves the station where it stands. -/
theorem stays_perform (h : t.perform o now = .ok out)
    (hkeeps : ∀ on, Node.perform .simulated { t.node with clock := now } o now = .ok on →
      Node.Keeps .simulated { t.node with clock := now } on.state) : t.Stays out.state := by
  obtain ⟨on, hon, rfl⟩ := perform_eq_ok h
  exact ⟨rfl, (hkeeps on hon).standing?_eq simulatedInstance⟩

theorem stays_demand (h : t.demand o now = .ok t')
    (hkeeps : ∀ on, Node.perform .simulated { t.node with clock := now } o now = .ok on →
      Node.Keeps .simulated { t.node with clock := now } on.state) : t.Stays t' := by
  obtain ⟨out, hout, h⟩ := Checked.bind_eq_ok_iff.1 h
  cases h
  exact stays_perform hout hkeeps

theorem stays_andThen {o : Outcome Station} {next : Station → Checked (Outcome Station)}
    (h : o.andThen next = .ok out) (hnext : ∀ u v, next u = .ok v → u.Stays v.state) :
    o.state.Stays out.state := by
  unfold Outcome.andThen at h
  split at h
  · cases h
    exact .refl _
  · exact hnext _ _ h

/-- A request that was refused ends the call. -/
theorem andThen_refused {o : Outcome Station} {next : Station → Checked (Outcome Station)}
    (h : o.andThen next = .ok out) (hrefused : o.refusal.isSome = true) : out = o := by
  rw [Outcome.andThen, if_pos hrefused] at h
  exact (Except.ok.inj h).symm

theorem andThen_granted {o : Outcome Station} {next : Station → Checked (Outcome Station)}
    (h : o.andThen next = .ok out) (hgranted : o.refusal = none) : next o.state = .ok out := by
  rwa [Outcome.andThen, hgranted, if_neg (by simp)] at h

/-- A station that is to be a root is refused, or it is one now. -/
theorem form_eq_ok (h : t.form simulatedInstance params now = .ok out) :
    t.Stays out.state ∨
      t.standing? = none ∧ out.state.hop = some 0 ∧ out.state.standing? = some ⟨none, []⟩ := by
  obtain ⟨o, ho, h⟩ := Checked.bind_eq_ok_iff.1 h
  obtain ⟨on, hon, rfl⟩ := perform_eq_ok ho
  rcases Node.standing?_join hon with ⟨hrefused, hsame⟩ | ⟨hgranted, hnew, hjoined⟩
  · rw [andThen_refused h hrefused]
    refine .inl ⟨rfl, ?_⟩
    show on.state.standing? simulatedInstance = _
    rw [hsame]
    rfl
  · cases andThen_granted h hgranted
    exact .inr ⟨hnew, rfl, hjoined⟩

/-- What an advertisement may do to a station: nothing, make it join through the sender, or make the
sender one of its candidate parents. -/
inductive Hears (sender : Address) (senderHop : Nat) (t t' : Station) : Prop
  | stays : t.Stays t' → Hears sender senderHop t t'
  | joins : t.standing? = none → t'.hop = some (min (senderHop + 1) maxHop) →
      t'.standing? = some ⟨some sender, [sender]⟩ → Hears sender senderHop t t'
  | registers {hop : Nat} {st : Standing} {parents : List Address} :
      t.hop = some hop → senderHop < hop → t.standing? = some st → t'.hop = t.hop →
        t'.standing? = some ⟨st.preferred, parents⟩ →
          (∀ q ∈ parents, q ∈ st.parents ∨ q = sender) → Hears sender senderHop t t'

theorem Hears.andThen (h : t.Hears sender senderHop t') (h' : t'.Stays u) :
    t.Hears sender senderHop u := by
  cases h with
  | stays h => exact .stays (h.trans h')
  | joins hnew hhop hstanding => exact .joins hnew (h'.1.trans hhop) (h'.2.trans hstanding)
  | registers hhop hlt hstanding hhop' hstanding' hparents =>
    exact .registers hhop hlt hstanding (h'.1.trans hhop') (h'.2.trans hstanding') hparents

theorem Stays.hears (h : t.Stays t') (h' : t'.Hears sender senderHop u) :
    t.Hears sender senderHop u := by
  cases h' with
  | stays h' => exact .stays (h.trans h')
  | joins hnew hhop hstanding => exact .joins (h.2.symm.trans hnew) hhop hstanding
  | registers hhop hlt hstanding hhop' hstanding' hparents =>
    exact .registers (h.1.symm.trans hhop) hlt (h.2.symm.trans hstanding) (hhop'.trans h.1)
      hstanding' hparents

theorem stays_setClock (t : Station) (clock : Instant) : t.Stays (t.setClock clock) := ⟨rfl, rfl⟩

theorem hears_joinThrough
    (h : t.joinThrough sender senderHop simulatedInstance params now = .ok out) :
    t.Hears sender senderHop out.state := by
  obtain ⟨o₁, h₁, h⟩ := Checked.bind_eq_ok_iff.1 h
  obtain ⟨o₂, h₂, h⟩ := Checked.bind_eq_ok_iff.1 h
  obtain ⟨o₃, h₃, h⟩ := Checked.bind_eq_ok_iff.1 h
  have hdao := stays_andThen h fun u v hv =>
    stays_perform hv fun on hon => Node.keeps_scheduleDao hon
  obtain ⟨on, hon, rfl⟩ := perform_eq_ok h₁
  rcases Node.standing?_join hon with ⟨hrefused, hsame⟩ | ⟨hgranted, hnew, hjoined⟩
  · have heq₂ := andThen_refused h₂ hrefused
    have heq₃ := andThen_refused h₃ (by rwa [heq₂])
    rw [heq₃, heq₂] at hdao
    have hsame' : on.state.standing? simulatedInstance = t.standing? := by
      rw [hsame]
      rfl
    have hstay : t.Stays (on.map fun node => { t with node }).state := ⟨rfl, hsame'⟩
    exact .stays (hstay.trans hdao)
  · -- Nothing stands in the way of the first candidate, nor of preferring it.
    obtain ⟨on₂, hon₂, rfl⟩ := perform_eq_ok (andThen_granted h₂ hgranted)
    obtain ⟨m₂, hm₂, hstanding₂⟩ := Node.addParent_first (p := .simulated) (a := sender)
      (n := { on.state with clock := now }) hjoined (by decide)
    cases (congrArg Except.ok hm₂).symm.trans hon₂
    obtain ⟨on₃, hon₃, rfl⟩ := perform_eq_ok (andThen_granted h₃ rfl)
    obtain ⟨m₃, hm₃, hstanding₃⟩ := Node.setPreferred_first (a := sender)
      (n := { m₂ with clock := now }) hstanding₂
    cases (congrArg Except.ok hm₃).symm.trans hon₃
    exact .joins hnew hdao.1 (hdao.2.trans hstanding₃)

theorem hears_addBackup {hop : Nat} (hhop : t.hop = some hop) (hlt : senderHop < hop)
    (hjoined : t.isJoined simulatedInstance = true)
    (h : t.addBackup sender simulatedInstance now = .ok out) :
    t.Hears sender senderHop out.state := by
  obtain ⟨o, ho, h⟩ := Checked.bind_eq_ok_iff.1 h
  have hout : out.state = o.state := by
    cases h
    split <;> rfl
  obtain ⟨on, hon, rfl⟩ := perform_eq_ok ho
  cases hon
  obtain ⟨st, hst⟩ : ∃ st, t.standing? = some st := by
    refine Option.ne_none_iff_exists'.1 fun hnone => ?_
    rw [isJoined, Node.standing?_eq_none_iff.1 hnone] at hjoined
    cases hjoined
  obtain ⟨parents, hstanding, hparents⟩ := Node.standing?_addParent (p := .simulated) (a := sender)
    (n := { t.node with clock := now }) hst
  rw [hout]
  exact .registers hhop hlt hst rfl hstanding hparents

theorem hears_considerSender
    (h : t.considerSender sender senderHop simulatedInstance params now = .ok out) :
    t.Hears sender senderHop out.state := by
  unfold considerSender at h
  split at h
  · exact hears_joinThrough h
  rename_i hjoined
  split at h
  · rename_i hcloser
    obtain ⟨hop, hhop, hlt⟩ := (Option.any_eq_true _ _).1 hcloser
    exact hears_addBackup hhop (of_decide_eq_true hlt) (by simpa using hjoined) h
  · cases h
    exact .stays (.refl t)

theorem hears_heardDio
    (h : t.heardDio sender senderHop simulatedInstance l params now = .ok out) :
    t.Hears sender senderHop out.state := by
  obtain ⟨o₁, h₁, h⟩ := Checked.bind_eq_ok_iff.1 h
  obtain ⟨o₂, h₂, h⟩ := Checked.bind_eq_ok_iff.1 h
  have hconsistent := stays_andThen h₂ fun u v hv =>
    stays_perform hv fun on hon => by
      cases hon
      exact Node.keeps_dioConsistent
  have hlearn := stays_andThen h fun u v hv =>
    stays_perform hv fun on hon => Node.keeps_dioReceived hon
  have hconsidered := (t.stays_setClock now).hears (hears_considerSender h₁)
  exact (hconsidered.andThen hconsistent).andThen hlearn

/-! ## Calls that leave a station where it stands -/

theorem stays_start (h : t.start now = .ok t') : t.Stays t' :=
  stays_demand h fun on hon => by
    cases hon
    exact Node.keeps_restartUpkeep

/-- A solicitation restarts trickle timers, of which a reachable node has none that is out of
order. -/
theorem stays_heardDis (ht : t.node.Reachable .simulated) (h : t.heardDis now = .ok t') :
    t.Stays t' := by
  have hfold (js : List InstanceId) (u v : Station) (hu : u.node.Reachable .simulated)
      (h : js.foldlM (fun s j => s.demand (.command (.resetDio j false)) now) u = .ok v) :
      u.Stays v := by
    induction js generalizing u with
    | nil =>
      cases h
      exact .refl _
    | cons j js ih =>
      rw [List.foldlM_cons] at h
      obtain ⟨w, hw, h⟩ := Checked.bind_eq_ok_iff.1 h
      have hasks := asks_demand (.resetDio (i := j)) hw
      have hstay := stays_demand hw fun on hon => Node.keeps_resetDio (hu.setClock now).orderly hon
      exact hstay.trans (ih w (hasks.reachable hu) h)
  exact (t.stays_setClock now).trans (hfold _ _ _ (ht.setClock now) h)

theorem stays_heardDao {reported : Bool} (h : t.heardDao sender = .ok (reported, t')) :
    t.Stays t' := by
  unfold heardDao at h
  split at h
  · obtain ⟨daosReceived, -, h⟩ := Checked.bind_eq_ok_iff.1 h
    cases h
    exact ⟨rfl, rfl⟩
  · cases h
    exact .refl t

theorem stays_handleTimer (ht : t.node.Reachable .simulated) (h : t.handleTimer now = .ok t') :
    t.Stays t' := by
  obtain ⟨n, ms, rfl, -, hrung, -, horderly⟩ := rung_of_handleTimer ht h
  exact ⟨rfl, (hrung.keeps horderly).standing?_eq simulatedInstance⟩

end Station

/-! ## Calls in a simulation -/

namespace Simulation

variable {s : Simulation} {c : Move} {t t' : Station}

/-- The ways in which a call may change where a station stands. -/
inductive Takes (s : Simulation) (c : Move) (t t' : Station) : Prop
  | same : t.Stays t' → Takes s c t t'
  | root : c = .form t.address → t.standing? = none → t'.hop = some 0 →
      t'.standing? = some ⟨none, []⟩ → Takes s c t t'
  | heard {sender : Address} {u : Station} {hop : Nat} : c = .event →
      s.stations.find? sender = some u → u.hop = some hop → t.Hears sender hop t' → Takes s c t t'

/-- A message of the sender is handed to the receiver. -/
def Hands (s : Simulation) (c : Move) (sender receiver : Address) : Prop :=
  c = .event ∧ ∃ slot msg rest, s.agenda.next? = some (slot, .deliver sender receiver msg, rest)

/-- When an event calls a station, it stands where it stood, or it hears an advertisement. -/
theorem Sound.heard (hs : s.Sound) (h : s.Called .event t t') :
    t.Stays t' ∨ ∃ sender u hop, s.Hands .event sender t.address ∧
      s.stations.find? sender = some u ∧ u.hop = some hop ∧ t.Hears sender hop t' := by
  obtain ⟨hreach, -⟩ := h.fresh hs
  cases h with
  | @event slot happening rest t t' hnext hhandled =>
    cases hhandled with
    | @hear sender receiver c t t' reported ht hhear =>
      cases c with
      | dio i l =>
        obtain rfl := hs.inst_of_dio hnext
        obtain rfl := hs.address receiver t ht
        simp only [hear] at hhear
        split at hhear
        · cases hhear
          exact .inl (.refl t)
        · rename_i hop hhop
          obtain ⟨u, hu, huhop⟩ := Option.bind_eq_some_iff.1 hhop
          obtain ⟨out, hout, hhear⟩ := Checked.bind_eq_ok_iff.1 hhear
          cases hhear
          exact .inr ⟨sender, u, hop, ⟨rfl, _, _, _, hnext⟩, hu, huhop, Station.hears_heardDio hout⟩
      | dis target =>
        obtain ⟨u, hu, hhear⟩ := Checked.bind_eq_ok_iff.1 hhear
        cases hhear
        exact .inl (Station.stays_heardDis hreach hu)
      | dao i parent lifetime => exact .inl (Station.stays_heardDao hhear)
    | wake hu hwake ht' => exact .inl (Station.stays_handleTimer hreach ht')

theorem Sound.takes (hs : s.Sound) (h : s.Called c t t') : s.Takes c t t' := by
  have h₀ := h
  cases h with
  | start ht => exact .same (Station.stays_start ht)
  | @form a t out ht hout =>
    obtain rfl := hs.address a t ht
    rcases Station.form_eq_ok hout with hstay | ⟨hnew, hhop, hstanding⟩
    · exact .same hstay
    · exact .root rfl hnew hhop hstanding
  | event =>
    rcases hs.heard h₀ with hstay | ⟨sender, u, hop, -, hu, huhop, hhears⟩
    · exact .same hstay
    · exact .heard rfl hu huhop hhears

/-- A candidate parent that the station did not have before is the sender of a message that it is
handed. -/
theorem Sound.new_parent (hs : s.Sound) (h : s.Called c t t') {st' : Standing} {q : Address}
    (hst' : t'.standing? = some st') (hq : q ∈ st'.parents) :
    (∃ st, t.standing? = some st ∧ q ∈ st.parents) ∨ s.Hands c q t.address := by
  have hstays (hstay : t.Stays t') : ∃ st, t.standing? = some st ∧ q ∈ st.parents :=
    ⟨st', hstay.2.symm.trans hst', hq⟩
  have h₀ := h
  cases h with
  | start ht => exact .inl (hstays (Station.stays_start ht))
  | form ht hout =>
    rcases Station.form_eq_ok hout with hstay | ⟨-, -, hstanding⟩
    · exact .inl (hstays hstay)
    · cases hstanding.symm.trans hst'
      cases hq
  | event =>
    rcases hs.heard h₀ with hstay | ⟨sender, u, hop, hhands, -, -, hhears⟩
    · exact .inl (hstays hstay)
    cases hhears with
    | stays hstay => exact .inl (hstays hstay)
    | joins hnew hhop hstanding =>
      cases hstanding.symm.trans hst'
      rw [List.mem_singleton.1 hq]
      exact .inr hhands
    | @registers hop st parents hhop hlt hstanding hhop' hstanding' hparents =>
      cases hstanding'.symm.trans hst'
      rcases hparents q hq with hq | rfl
      · exact .inl ⟨st, hstanding, hq⟩
      · exact .inr hhands

end Simulation

end TrickleNet
