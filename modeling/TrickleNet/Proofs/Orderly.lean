import Mathlib
import TrickleNet.Proofs.Cadence
import TrickleNet.Proofs.Slots
/-!
# Nodes in order

`Node.Owns n q` says that the node has a part in what the alarm `q` is for: it belongs to the
instance of the alarm, and if the alarm is about a parent, that parent is the preferred one.  A node
is `Node.Orderly` if it owns all the alarms that it has slots for, an alarm is set for the trickle
timer of every instance it belongs to, and its tables are no larger than the platform allows.

This file shows that requests keep a node in order.  Most of them neither join nor leave an instance
and choose no parent; `Node.Keeps` is what these leave alone.  The others are taken one by one.
-/

namespace TrickleNet

/-- Apart from the trickle timer and the records of parents, nothing about the instance has
changed. -/
structure Dodag.Keeps (p : Platform) (d d' : Dodag) : Prop where
  preferred : d'.preferred = d.preferred
  parents : d'.parents.keys = d.parents.keys
  paced : d.Paced p → d'.Paced p

theorem Dodag.Keeps.refl (p : Platform) (d : Dodag) : d.Keeps p d := ⟨rfl, rfl, id⟩

theorem Dodag.Keeps.trans {p : Platform} {d d' d'' : Dodag} (h : d.Keeps p d')
    (h' : d'.Keeps p d'') : d.Keeps p d'' where
  preferred := h'.preferred.trans h.preferred
  parents := h'.parents.trans h.parents
  paced := h'.paced ∘ h.paced

/-- The records of parents have no part in the pace of the trickle timer. -/
theorem Dodag.Paced.of_parents {p : Platform} {d : Dodag} {parents : Table Address Watch}
    {preferred : Option Address} (h : d.Paced p) : Paced p { d with parents, preferred } :=
  ⟨h.valid, h.min_le, h.le_max, h.phase, h.jitter_pos, h.pending⟩

namespace Node

variable {ρ : Type} {p : Platform} {n m k : Node ρ} {i j : InstanceId} {a : Address} {d d' : Dodag}
  {q q' : Purpose} {now : Instant} {after : Span}

/-- The node has a part in what the alarm is for. -/
def Owns (n : Node ρ) : Purpose → Prop
  | .upkeep => True
  | .advertise i | .report i => n.dodags.contains i = true
  | .watch i a | .probe i a => n.preferred? i = some a

/-- Whether a node owns an alarm is a matter of the instance of that alarm. -/
theorem Owns.congr (h : n.Owns q)
    (hsame : ∀ i, q.inst? = some i → m.dodags.find? i = n.dodags.find? i) : m.Owns q := by
  cases q with
  | upkeep => trivial
  | advertise i | report i =>
    rw [Owns, Table.contains, hsame i rfl]
    exact h
  | watch i a | probe i a =>
    rw [Owns, preferred?, hsame i rfl]
    exact h

theorem preferred?_of_find? (hd : n.dodags.find? i = some d) : n.preferred? i = d.preferred := by
  rw [preferred?, hd]
  rfl

/-- A node owns alarms of the instances that it belongs to alone. -/
theorem Owns.joined (h : n.Owns q) (hi : q.inst? = some i) : n.dodags.contains i = true := by
  cases q with
  | upkeep => cases hi
  | advertise j | report j =>
    obtain rfl := Option.some.inj hi
    exact h
  | watch j a | probe j a =>
    obtain rfl := Option.some.inj hi
    obtain ⟨d, hd, -⟩ := Option.bind_eq_some_iff.1 h
    exact Table.contains_of_find? hd

/-- The alarms are those of the instances that the node belongs to, and the tables are no larger
than the platform allows. -/
structure Orderly (p : Platform) (n : Node ρ) : Prop where
  /-- The node owns the alarms that it has slots for. -/
  owned : ∀ q, n.alarms.Holds q → n.Owns q
  /-- The trickle timer of each instance runs. -/
  armed : ∀ i, n.dodags.contains i = true → n.alarms.isArmed (.advertise i) = true
  instances : n.dodags.size ≤ p.maxInstances
  parents : ∀ i d, n.dodags.find? i = some d → d.parents.size ≤ p.maxParents
  paced : ∀ i d, n.dodags.find? i = some d → d.Paced p
  /-- The ticker has the period of the platform. -/
  ticker : ∀ a, n.alarms.slots.find? .upkeep = some a → a.interval = p.upkeepInterval

theorem orderly_new (p : Platform) (source : ρ) (clock : Instant) (ready : Bool) :
    (Node.new source clock ready).Orderly p where
  owned _ h := (AlarmTable.not_holds_empty h).elim
  armed _ h := (Bool.false_ne_true h).elim
  instances := Nat.zero_le _
  parents _ _ h := by cases h
  paced _ _ h := by cases h
  ticker _ h := by cases h

/-! ## What most requests leave alone -/

/-- No instance is joined or left and no parent chosen or dropped, and alarms get new slots only if
the node owns them. -/
structure Keeps (p : Platform) (n m : Node ρ) : Prop where
  joined : ∀ i, m.dodags.contains i = n.dodags.contains i
  dodags : ∀ i d d', n.dodags.find? i = some d → m.dodags.find? i = some d' → d.Keeps p d'
  slots : ∀ q, m.alarms.Holds q → n.alarms.Holds q ∨ n.Owns q
  armed : ∀ i, n.alarms.isArmed (.advertise i) = true → m.alarms.isArmed (.advertise i) = true
  ticker : ∀ a, m.alarms.slots.find? .upkeep = some a →
    a.interval = p.upkeepInterval ∨
      ∃ b, n.alarms.slots.find? .upkeep = some b ∧ b.interval = a.interval

/-- An instance that is still joined was joined before. -/
theorem Keeps.find? (h : n.Keeps p m) (hd : m.dodags.find? i = some d') :
    ∃ d, n.dodags.find? i = some d ∧ d.Keeps p d' := by
  have hjoined := Table.contains_of_find? hd
  rw [h.joined] at hjoined
  obtain ⟨d, hd'⟩ := Table.contains_iff.1 hjoined
  exact ⟨d, hd', h.dodags i d d' hd' hd⟩

theorem Keeps.preferred? (h : n.Keeps p m) (i : InstanceId) : m.preferred? i = n.preferred? i := by
  cases hd : m.dodags.find? i with
  | none =>
    have hnone : n.dodags.find? i = none := by
      rw [Table.find?_eq_none_iff] at hd ⊢
      rw [← h.joined, hd]
    rw [Node.preferred?, Node.preferred?, hd, hnone]
  | some d' =>
    obtain ⟨d, hd', hkeeps⟩ := h.find? hd
    rw [preferred?_of_find? hd, preferred?_of_find? hd', hkeeps.preferred]

theorem Keeps.owns_iff (h : n.Keeps p m) : m.Owns q ↔ n.Owns q := by
  cases q with
  | upkeep => exact Iff.rfl
  | advertise i | report i =>
    rw [Owns, Owns, h.joined]
  | watch i a | probe i a =>
    rw [Owns, Owns, h.preferred?]

theorem keeps_of_eq (hdodags : m.dodags = n.dodags) (halarms : m.alarms = n.alarms) :
    n.Keeps p m where
  joined i := by rw [hdodags]
  dodags i d d' hd hd' := by
    rw [hdodags, hd] at hd'
    obtain rfl := Option.some.inj hd'
    exact .refl p d
  slots q hq := .inl (by rwa [halarms] at hq)
  armed i hi := by rwa [halarms]
  ticker a ha := .inr ⟨a, by rwa [halarms] at ha, rfl⟩

theorem Keeps.refl (p : Platform) (n : Node ρ) : n.Keeps p n := keeps_of_eq rfl rfl

theorem Keeps.trans (h : n.Keeps p m) (h' : m.Keeps p k) : n.Keeps p k where
  joined i := (h'.joined i).trans (h.joined i)
  dodags i d d'' hd hd'' := by
    obtain ⟨d', hd', hkeeps⟩ := h'.find? hd''
    exact (h.dodags i d d' hd hd').trans hkeeps
  slots q hq := by
    rcases h'.slots q hq with hq | hq
    · exact h.slots q hq
    · exact .inr (h.owns_iff.1 hq)
  armed i hi := h'.armed i (h.armed i hi)
  ticker a ha := by
    rcases h'.ticker a ha with ha | ⟨b, hb, heq⟩
    · exact .inl ha
    · rw [← heq]
      exact h.ticker b hb

theorem keeps_putDodag (hd : n.dodags.find? i = some d) (h : d.Keeps p d') :
    n.Keeps p (n.putDodag i d') where
  joined j := by
    have hi := Table.contains_of_find? hd
    rw [Node.putDodag, Table.contains_insert]
    by_cases hj : j = i
    · subst hj
      simp [hi]
    · simp [hj]
  dodags j e e' he he' := by
    rw [Node.putDodag, Table.find?_insert] at he'
    split at he'
    · rename_i hj
      subst hj
      obtain rfl := Option.some.inj (hd.symm.trans he)
      obtain rfl := Option.some.inj he'
      exact h
    · obtain rfl := Option.some.inj (he.symm.trans he')
      exact .refl p e
  slots _ hq := .inl hq
  armed _ hi := hi
  ticker a ha := .inr ⟨a, ha, rfl⟩

/-- An alarm that the node owns may be armed; the ticker only for its period. -/
theorem keeps_arm (hq : n.Owns q) (hticker : q = .upkeep → after = p.upkeepInterval) :
    n.Keeps p (n.arm q now after) where
  joined _ := rfl
  dodags i d d' hd hd' := by
    obtain rfl := Option.some.inj (hd.symm.trans hd')
    exact .refl p d
  slots q' hq' := by
    rw [arm, AlarmTable.holds_set] at hq'
    rcases hq' with rfl | hq'
    · exact .inr hq
    · exact .inl hq'
  armed i hi := by
    rw [AlarmTable.isArmed, arm, AlarmTable.deadline?_set]
    split
    · rfl
    · exact hi
  ticker a ha := by
    simp only [arm, AlarmTable.set, Table.find?_insert] at ha
    split at ha
    · rename_i hq
      obtain rfl := Option.some.inj ha
      exact .inl (hticker hq.symm)
    · exact .inr ⟨a, ha, rfl⟩

/-- Any alarm but that of a trickle timer may fall silent. -/
theorem keeps_stop (hq : ∀ i, q ≠ .advertise i) :
    n.Keeps p { n with alarms := n.alarms.stop q } where
  joined _ := rfl
  dodags i d d' hd hd' := by
    obtain rfl := Option.some.inj (hd.symm.trans hd')
    exact .refl p d
  slots q' hq' := .inl (AlarmTable.holds_stop.1 hq')
  armed i hi := by
    rw [AlarmTable.isArmed, AlarmTable.deadline?_stop, if_neg (hq i).symm]
    exact hi
  ticker a ha := by
    simp only [AlarmTable.stop, Table.find?_adjust] at ha
    split at ha
    · obtain ⟨b, hb, rfl⟩ := Option.map_eq_some_iff.1 ha
      exact .inr ⟨b, hb, rfl⟩
    · exact .inr ⟨a, ha, rfl⟩

/-- What the requests leave alone that only keep a node going is enough to keep it in order. -/
theorem Keeps.orderly (h : n.Keeps p m) (hn : n.Orderly p) : m.Orderly p where
  owned q hq := by
    rw [h.owns_iff]
    rcases h.slots q hq with hq | hq
    · exact hn.owned q hq
    · exact hq
  armed i hi := by
    rw [h.joined] at hi
    exact h.armed i (hn.armed i hi)
  instances := by
    rw [← Table.length_keys, Table.keys_eq_of_contains h.joined, Table.length_keys]
    exact hn.instances
  parents i d' hd' := by
    obtain ⟨d, hd, hkeeps⟩ := h.find? hd'
    rw [← Table.length_keys, hkeeps.parents, Table.length_keys]
    exact hn.parents i d hd
  paced i d' hd' := by
    obtain ⟨d, hd, hkeeps⟩ := h.find? hd'
    exact hkeeps.paced (hn.paced i d hd)
  ticker a ha := by
    rcases h.ticker a ha with ha | ⟨b, hb, heq⟩
    · exact ha
    · rw [← heq]
      exact hn.ticker b hb

theorem Keeps.congr (h : n.Keeps p m) (hdodags : k.dodags = m.dodags)
    (halarms : k.alarms = m.alarms) : n.Keeps p k :=
  h.trans (keeps_of_eq hdodags halarms)

/-- The record of a candidate parent may change. -/
theorem keeps_putWatch {w w' : Watch} (hd : n.dodags.find? i = some d)
    (hw : d.parents.find? a = some w) : n.Keeps p (n.putWatch i d a w') := by
  refine keeps_putDodag hd ⟨rfl, ?_, Dodag.Paced.of_parents⟩
  exact Table.keys_insert (Table.contains_of_find? hw) w'

/-! ## Requests that keep a node going -/

theorem keeps_scheduleReception {delay listen jitter : Span} :
    n.Keeps p (n.scheduleReception i a delay listen jitter now).state := by
  unfold scheduleReception
  split
  · exact .refl p n
  rename_i d hd
  split
  · exact .refl p n
  rename_i hpref
  split
  · exact .refl p n
  · rename_i w hw
    have hown : n.Owns (.watch i a) := (preferred?_of_find? hd).trans (not_ne_iff.1 hpref)
    have harm : n.Keeps p (n.arm (.watch i a) now (delay + listen + jitter)) :=
      keeps_arm hown (by simp)
    exact (harm.trans (keeps_putWatch hd hw)).congr rfl rfl

theorem keeps_dioReceived {l : Lookahead} {out : Outcome (Node ρ)}
    (h : dioReceived p n i a l now = .ok out) : n.Keeps p out.state := by
  by_cases hp : (n.track i a).preferred ∧ (n.track i a).watch.isSome
  swap
  · rw [dioReceived_of_not_preferred hp h]
    exact .refl p n
  obtain ⟨w, hw⟩ := Option.isSome_iff_exists.1 hp.2
  obtain ⟨d, hd, hpref, hfind⟩ := dodag_of_track hp.1 hw
  have hown : n.Owns (.watch i a) := hp.1
  have hput (w' : Watch) : n.Keeps p (n.putWatch i d a w') := keeps_putWatch hd hfind
  rw [dioReceived_eq hd hpref hfind] at h
  cases hr : w.reception l.listen (l.jitter + p.receptionSkew) now with
  | first =>
    simp only [hr] at h
    rw [← Except.ok.inj h, firstHeard]
    refine Keeps.trans ?_ keeps_scheduleReception
    have hstop := (hput { w with stage := .awaitingWindow }).trans
      (keeps_stop (q := .probe i a) (by simp))
    split
    · exact hstop.congr rfl rfl
    · exact hstop
  | answer =>
    simp only [hr] at h
    rw [← Except.ok.inj h, answerHeard]
    exact ((keeps_arm hown (by simp)).trans (keeps_putWatch hd hfind)).congr rfl rfl
  | late =>
    simp only [hr] at h
    obtain ⟨-, -, k, hdodags, halarms, -, -, rfl⟩ := lateHeard_eq_ok h
    exact ((hput _).congr hdodags halarms).trans keeps_scheduleReception
  | repeated =>
    simp only [hr] at h
    rw [← Except.ok.inj h]
    exact keeps_scheduleReception
  | early | overlooked =>
    simp only [hr] at h
    rw [← Except.ok.inj h]
    exact keeps_of_eq rfl rfl

theorem keeps_solicit {out : Outcome (Node ρ)} (h : n.solicit i = .ok out) :
    n.Keeps p out.state := by
  unfold solicit at h
  split at h
  · rw [← Except.ok.inj h]
    exact .refl p n
  rename_i d hd
  split at h
  · rw [← Except.ok.inj h]
    exact .refl p n
  · rename_i a ha
    have hadjust (f : Watch → Watch) : d.Keeps p { d with parents := d.parents.adjust a f } :=
      ⟨rfl, Table.keys_adjust, Dodag.Paced.of_parents⟩
    obtain ⟨k, hk, h⟩ := Checked.bind_eq_ok_iff.1 h
    obtain ⟨outbox, counts, trace, rfl⟩ := sendProbe_unchanged hk
    rw [← Except.ok.inj h]
    exact (keeps_putDodag hd (hadjust _)).congr rfl rfl

theorem keeps_dioConsistent : n.Keeps p (n.dioConsistent i).state := by
  unfold dioConsistent
  split
  · exact .refl p n
  · rename_i d hd
    refine keeps_putDodag hd ⟨rfl, rfl, fun h => ?_⟩
    exact ⟨h.valid, h.min_le, h.le_max, h.phase, h.jitter_pos, h.pending⟩

theorem keeps_restartUpkeep : n.Keeps p (restartUpkeep p n now) := by
  have harm : n.Keeps p (n.arm .upkeep now p.upkeepInterval) := keeps_arm trivial fun _ => rfl
  exact harm.congr rfl rfl

section

variable [RandomSource ρ]

theorem keeps_scheduleDao {out : Outcome (Node ρ)} (h : scheduleDao p n i now = .ok out) :
    n.Keeps p out.state := by
  unfold scheduleDao at h
  split at h
  · rw [← Except.ok.inj h]
    exact .refl p n
  rename_i hjoined
  split at h
  · rw [← Except.ok.inj h]
    exact keeps_of_eq rfl rfl
  · obtain ⟨ticks, -, h⟩ := Checked.bind_eq_ok_iff.1 h
    have hown : n.Owns (.report i) := by simpa [Owns] using hjoined
    rw [← Except.ok.inj h]
    exact (keeps_arm hown (by simp)).congr rfl rfl

/-- The shortest interval of an instance begins. -/
theorem restarted {e : TraceEvent} (hd : d.params.Valid)
    (hk : (n.putDodag i d.restart).count .dioResets = .ok k)
    (hm : beginInterval p (k.emit e) i now = .ok m) :
    ∃ d' listen, d'.Paced p ∧ d'.preferred = d.preferred ∧ d'.parents = d.parents ∧
      m.dodags = n.dodags.insert i d' ∧ m.alarms = n.alarms.set (.advertise i) now listen := by
  obtain ⟨-, rfl⟩ := count_eq_ok hk
  obtain ⟨split, d', source, hbegin, rfl⟩ := beginInterval_eq_ok (d := d.restart)
    (by simp [emit, putDodag]) hm
  obtain ⟨middle, next, -, -, -, -, hd'⟩ := Dodag.begin_eq_ok hbegin
  refine ⟨d', split.listen, Dodag.paced_restart hbegin hd, ?_, ?_, Table.insert_insert, rfl⟩
  · rw [hd']
    rfl
  · rw [hd']
    rfl

/-- On an orderly node a reset only lets the trickle timer start over. -/
theorem keeps_resetDio {force : Bool} {out : Outcome (Node ρ)} (hn : n.Orderly p)
    (h : resetDio p n i force now = .ok out) : n.Keeps p out.state := by
  rcases resetDio_eq_ok h with hsame | ⟨d, k, hd, hk, hm⟩
  · rw [hsame]
    exact .refl p n
  · obtain ⟨d', listen, hpaced, hpref, hparents, hdodags, halarms⟩ :=
      restarted (hn.paced i d hd).valid hk hm
    have hown : n.Owns (.advertise i) := Table.contains_of_find? hd
    have harm : n.Keeps p (n.arm (.advertise i) now listen) := keeps_arm hown (by simp)
    have hkeeps : d.Keeps p d' := ⟨hpref, by rw [hparents], fun _ => hpaced⟩
    exact (harm.trans (keeps_putDodag hd hkeeps)).congr hdodags halarms

theorem Orderly.resetDio {force : Bool} {out : Outcome (Node ρ)} (hn : n.Orderly p)
    (h : resetDio p n i force now = .ok out) : out.state.Orderly p :=
  (keeps_resetDio hn h).orderly hn

end

/-! ## Requests about instances and parents -/

/-- Alarms about parents may be forgotten. -/
theorem Orderly.forgetAlarms (hn : n.Orderly p) : (n.forgetAlarms i a).Orderly p where
  owned q hq := by
    simp only [Node.forgetAlarms, AlarmTable.holds_remove] at hq
    exact hn.owned q hq.2.2
  armed j hj := by
    have harmed := hn.armed j hj
    simpa [AlarmTable.isArmed, Node.forgetAlarms] using harmed
  instances := hn.instances
  parents := hn.parents
  paced := hn.paced
  ticker b hb := by
    refine hn.ticker b ?_
    simpa [Node.forgetAlarms, AlarmTable.remove] using hb

/-- An instance may choose its parents, as long as alarms about parents are about the one that is
preferred. -/
theorem Orderly.putDodag (hn : n.Orderly p) (hd : n.dodags.find? i = some d)
    (hsize : d'.parents.size ≤ p.maxParents) (hpaced : d'.Paced p)
    (hpref : ∀ a, n.alarms.Holds (.watch i a) ∨ n.alarms.Holds (.probe i a) →
      d'.preferred = some a) : (n.putDodag i d').Orderly p where
  owned q hq := by
    have howns := hn.owned q hq
    by_cases hi : q.inst? = some i
    swap
    · refine howns.congr fun j hj => ?_
      rw [Node.putDodag, Table.find?_insert, if_neg]
      rintro rfl
      exact hi hj
    have hfind : (n.putDodag i d').dodags.find? i = some d' := by simp [Node.putDodag]
    cases q with
    | upkeep => trivial
    | advertise j | report j =>
      obtain rfl := Option.some.inj hi
      exact Table.contains_of_find? hfind
    | watch j a =>
      obtain rfl := Option.some.inj hi
      exact (preferred?_of_find? hfind).trans (hpref a (.inl hq))
    | probe j a =>
      obtain rfl := Option.some.inj hi
      exact (preferred?_of_find? hfind).trans (hpref a (.inr hq))
  armed j hj := by
    rw [Node.putDodag, Table.contains_insert] at hj
    refine hn.armed j ?_
    by_cases hji : j = i
    · rw [hji]
      exact Table.contains_of_find? hd
    · simpa [hji] using hj
  instances := by
    have hkeys := Table.keys_insert (Table.contains_of_find? hd) d'
    rw [← Table.length_keys, Node.putDodag, hkeys, Table.length_keys]
    exact hn.instances
  parents j e he := by
    rw [Node.putDodag, Table.find?_insert] at he
    split at he
    · rw [← Option.some.inj he]
      exact hsize
    · exact hn.parents j e he
  paced j e he := by
    rw [Node.putDodag, Table.find?_insert] at he
    split at he
    · rw [← Option.some.inj he]
      exact hpaced
    · exact hn.paced j e he
  ticker := hn.ticker

/-- Alarms about parents are about the preferred one. -/
theorem Orderly.preferred_eq (hn : n.Orderly p) (hd : n.dodags.find? i = some d)
    (h : n.alarms.Holds (.watch i a) ∨ n.alarms.Holds (.probe i a)) : d.preferred = some a := by
  rw [← preferred?_of_find? hd]
  rcases h with h | h
  · exact hn.owned _ h
  · exact hn.owned _ h

theorem Orderly.leave (hn : n.Orderly p) : (n.leave i).state.Orderly p := by
  unfold Node.leave
  split
  swap
  · exact hn
  have hfind (j : InstanceId) (e : Dodag) (he : (n.dodags.erase i).find? j = some e) :
      j ≠ i ∧ n.dodags.find? j = some e := by
    rw [Table.find?_erase] at he
    split at he
    · cases he
    · exact ⟨‹_›, he⟩
  constructor
  case owned =>
    intro q hq
    simp only [Outcome.state_granted, AlarmTable.holds_removeInstance] at hq
    refine (hn.owned q hq.2).congr fun j hj => ?_
    rw [Outcome.state_granted, Table.find?_erase, if_neg]
    rintro rfl
    exact hq.1 hj
  case armed =>
    intro j hj
    obtain ⟨e, he⟩ := Table.contains_iff.1 hj
    obtain ⟨hji, he⟩ := hfind j e he
    have harmed := hn.armed j (Table.contains_of_find? he)
    simpa [AlarmTable.isArmed, Purpose.inst?, hji] using harmed
  case instances => exact (Table.size_erase_le _ _).trans hn.instances
  case parents => exact fun j e he => hn.parents j e (hfind j e he).2
  case paced => exact fun j e he => hn.paced j e (hfind j e he).2
  case ticker =>
    intro b hb
    simp only [Outcome.state_granted, AlarmTable.removeInstance, Table.find?_filter,
      Option.filter_eq_some_iff] at hb
    exact hn.ticker b hb.1

theorem Orderly.addParent (hn : n.Orderly p) : (Node.addParent p n i a).state.Orderly p := by
  unfold Node.addParent
  split
  · exact hn
  rename_i d hd
  split
  · exact hn
  split
  · exact hn
  · rename_i hroom
    have hpref (b : Address) (hb : n.alarms.Holds (.watch i b) ∨ n.alarms.Holds (.probe i b)) :
        d.preferred = some b := hn.preferred_eq hd hb
    have hsize : (d.parents.insert a {}).size ≤ p.maxParents := by
      have hle := Table.size_insert_le d.parents a {}
      omega
    exact hn.putDodag hd hsize (hn.paced i d hd).of_parents hpref

theorem Orderly.removeParent (hn : n.Orderly p) : (n.removeParent i a).state.Orderly p := by
  unfold Node.removeParent
  split
  · exact hn
  rename_i d hd
  split
  swap
  · exact hn
  have hsize := (Table.size_erase_le d.parents a).trans (hn.parents i d hd)
  have hforgotten := hn.forgetAlarms (i := i) (a := a)
  refine hforgotten.putDodag hd hsize (hn.paced i d hd).of_parents fun b hb => ?_
  have hpref := hforgotten.preferred_eq hd hb
  have hne : b ≠ a := by
    rintro rfl
    simp [Node.forgetAlarms] at hb
  simp [hpref, hne]

theorem Orderly.setPreferred {b : Option Address} (hn : n.Orderly p) :
    (n.setPreferred i b).state.Orderly p := by
  unfold Node.setPreferred
  split
  · exact hn
  rename_i d hd
  split
  · exact hn
  split
  · exact hn
  have hpaced := hn.paced i d hd
  split
  · rename_i hnone
    refine hn.putDodag hd (hn.parents i d hd) hpaced.of_parents fun a ha => ?_
    have hpref := hn.preferred_eq hd ha
    rw [hnone] at hpref
    cases hpref
  · rename_i old hold
    have hsize : (d.parents.adjust old fun _ => {}).size ≤ p.maxParents := by
      rw [← Table.length_keys, Table.keys_adjust, Table.length_keys]
      exact hn.parents i d hd
    have hforgotten := hn.forgetAlarms (i := i) (a := old)
    refine hforgotten.putDodag hd hsize hpaced.of_parents fun a ha => ?_
    have hpref := hforgotten.preferred_eq hd ha
    obtain rfl := Option.some.inj (hold.symm.trans hpref)
    simp [Node.forgetAlarms] at ha

/-- An instance that is joined takes a place that was free, and its trickle timer starts. -/
theorem Orderly.join [RandomSource ρ] {params : TrickleParams} {out : Outcome (Node ρ)}
    (hn : n.Orderly p) (h : Node.join p n i params now = .ok out) : out.state.Orderly p := by
  unfold Node.join at h
  split at h
  · rw [← Except.ok.inj h]
    exact hn
  rename_i hvalid
  split at h
  · rw [← Except.ok.inj h]
    exact hn
  rename_i hnew
  split at h
  · rw [← Except.ok.inj h]
    exact hn
  rename_i hroom
  have hd : (n.putDodag i (.new params)).dodags.find? i = some (.new params) := by
    simp [Node.putDodag]
  simp only [Node.resetDio, hd, Bool.not_true, Bool.false_and, Bool.false_eq_true, if_false] at h
  obtain ⟨k, hk, h⟩ := Checked.bind_eq_ok_iff.1 h
  obtain ⟨m, hm, h⟩ := Checked.bind_eq_ok_iff.1 h
  rw [← Except.ok.inj h]
  obtain ⟨d, listen, hpaced, -, hparents, hdodags, halarms⟩ :=
    restarted (d := .new params) (not_not.1 hvalid) hk hm
  replace hdodags : m.dodags = n.dodags.insert i d := hdodags.trans Table.insert_insert
  replace halarms : m.alarms = n.alarms.set (.advertise i) now listen := halarms
  have hfind (j : InstanceId) : m.dodags.find? j = if j = i then some d else n.dodags.find? j := by
    rw [hdodags, Table.find?_insert]
  have hjoined : m.dodags.contains i = true := Table.contains_of_find? (v := d) (by simp [hfind])
  constructor
  case owned =>
    intro q hq
    rw [Outcome.state_granted, halarms, AlarmTable.holds_set] at hq
    rcases hq with rfl | hq
    · exact hjoined
    · have howns := hn.owned q hq
      refine howns.congr fun j hj => ?_
      rw [Outcome.state_granted, hfind, if_neg]
      rintro rfl
      exact hnew (howns.joined hj)
  case armed =>
    intro j hj
    rw [Outcome.state_granted, halarms, AlarmTable.isArmed, AlarmTable.deadline?_set]
    split
    · rfl
    · refine hn.armed j ?_
      rw [Outcome.state_granted, hdodags, Table.contains_insert] at hj
      simp_all
  case instances =>
    have hsize := Table.size_insert_le n.dodags i d
    rw [Outcome.state_granted, hdodags]
    omega
  case parents =>
    intro j e he
    rw [Outcome.state_granted, hfind] at he
    split at he
    · obtain rfl := Option.some.inj he
      rw [hparents]
      exact Nat.zero_le _
    · exact hn.parents j e he
  case paced =>
    intro j e he
    rw [Outcome.state_granted, hfind] at he
    split at he
    · obtain rfl := Option.some.inj he
      exact hpaced
    · exact hn.paced j e he
  case ticker =>
    intro b hb
    refine hn.ticker b ?_
    simpa [halarms, AlarmTable.set] using hb

end Node

end TrickleNet
