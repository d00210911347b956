import Mathlib
import TrickleNet.Proofs.Rang
/-!
# What is owed to the alarms of a node

`Node.backlog n now` adds up for how long the alarms of a node have been due at `now`: once for the
ticker and, as `Node.debt`, once for each instance.  Every alarm of an orderly node that rings
lowers it (`Rang.backlog_lt`), provided that the delays of the platform last at least one tick; it
is an alarm of a window that needs the sum over an instance, since it sets the alarm of the next
probe.

No backlog exceeds the budget of `Node.handleTimer` (`backlog_le`), so on a reachable node that call
lets every alarm ring that is due (`settles_handleTimer`).
-/

namespace TrickleNet

/-- The alarm that may be set when an alarm has rung: a window that was missed is followed by
probes. -/
def Purpose.next : Purpose → Purpose
  | watch i a => probe i a
  | q => q

theorem Purpose.inst?_next (q : Purpose) : q.next.inst? = q.inst? := by cases q <;> rfl

namespace Node

variable {ρ : Type} {p : Platform} {n m : Node ρ} {i : InstanceId} {a : Address} {d : Dodag}
  {q q' : Purpose} {now e : Instant}

/-! ## Alarms that ring and alarms that do not -/

/-- An alarm that rings falls silent, and at most one alarm is set in its place, for an instant that
counts from its deadline. -/
theorem Rang.alarms (h : Rang p n m e q) :
    m.alarms = n.alarms.stop q ∨ ∃ after, m.alarms = (n.alarms.stop q).set q.next e after := by
  cases h with
  | ticked _ halarms => exact .inr ⟨_, halarms.trans AlarmTable.set_stop.symm⟩
  | turned _ ht => exact .inr ⟨_, ht.alarms⟩
  | delayed _ _ halarms => exact .inr ⟨_, halarms.trans AlarmTable.set_stop.symm⟩
  | reported _ _ halarms => exact .inl halarms
  | missed _ _ _ _ _ halarms => exact .inr ⟨_, halarms⟩
  | probed _ _ _ _ _ _ halarms => exact .inr ⟨_, halarms.trans AlarmTable.set_stop.symm⟩

/-- All other alarms are left alone. -/
theorem Rang.deadline?_eq (h : Rang p n m e q) (hq : q' ≠ q) (hnext : q' ≠ q.next) :
    m.alarms.deadline? q' = n.alarms.deadline? q' := by
  rcases h.alarms with halarms | ⟨after, halarms⟩
  · rw [halarms, AlarmTable.deadline?_stop, if_neg hq]
  · rw [halarms, AlarmTable.deadline?_set, if_neg hnext, AlarmTable.deadline?_stop, if_neg hq]

/-- Alarms of other instances are left alone. -/
theorem Rang.deadline?_eq_of_inst? (h : Rang p n m e q) (hinst : q'.inst? ≠ q.inst?) :
    m.alarms.deadline? q' = n.alarms.deadline? q' := by
  refine h.deadline?_eq ?_ ?_
  · rintro rfl
    exact hinst rfl
  · rintro rfl
    exact hinst q.inst?_next

/-- Other instances are left alone. -/
theorem Rang.find?_eq (h : Rang p n m e q) (hi : q.inst? ≠ some i) :
    m.dodags.find? i = n.dodags.find? i := by
  have hne (j : InstanceId) (hj : q.inst? = some j) : i ≠ j := by
    rintro rfl
    exact hi hj
  cases h with
  | ticked hdodags | delayed _ hdodags | reported _ hdodags | probed _ _ _ _ _ hdodags =>
    rw [hdodags]
  | turned _ ht => rw [ht.dodags, if_neg (hne _ rfl)]
  | missed _ _ _ _ hdodags =>
    rw [hdodags, putWatch, putDodag, Table.find?_insert, if_neg (hne _ rfl)]

theorem Rang.keys_eq (h : Rang p n m e q) : m.dodags.keys = n.dodags.keys :=
  Table.keys_eq_of_contains h.keeps.joined

/-! ## What is owed -/

/-- What is owed to the trickle timer of an instance. -/
def turnDebt (n : Node ρ) (now : Instant) (i : InstanceId) : Nat :=
  match n.dodags.find? i, n.alarms.deadline? (.advertise i) with
  | some d, some due => d.turnLag due now
  | _, _ => 0

/-- What is owed to the alarms about the preferred parent of an instance. -/
def parentDebt (n : Node ρ) (now : Instant) (i : InstanceId) : Nat :=
  match n.preferred? i with
  | some a =>
    lag? (n.alarms.deadline? (.watch i a)) now + lag? (n.alarms.deadline? (.probe i a)) now
  | none => 0

/-- What is owed to the alarms of an instance. -/
def debt (n : Node ρ) (now : Instant) (i : InstanceId) : Nat :=
  n.turnDebt now i + lag? (n.alarms.deadline? (.report i)) now + n.parentDebt now i

/-- What is owed to the alarms of a node. -/
def backlog (n : Node ρ) (now : Instant) : Nat :=
  lag? (n.alarms.deadline? .upkeep) now + (n.dodags.keys.map (n.debt now)).sum

theorem turnDebt_eq {due : Instant} (hd : n.dodags.find? i = some d)
    (hdue : n.alarms.deadline? (.advertise i) = some due) :
    n.turnDebt now i = d.turnLag due now := by
  rw [turnDebt, hd, hdue]

theorem parentDebt_eq (hpref : n.preferred? i = some a) :
    n.parentDebt now i =
      lag? (n.alarms.deadline? (.watch i a)) now + lag? (n.alarms.deadline? (.probe i a)) now := by
  rw [parentDebt, hpref]

/-- What is owed to the trickle timer is a matter of its phase and its alarm. -/
theorem turnDebt_congr
    (hphase : (m.dodags.find? i).map Dodag.phase = (n.dodags.find? i).map Dodag.phase)
    (halarm : m.alarms.deadline? (.advertise i) = n.alarms.deadline? (.advertise i)) :
    m.turnDebt now i = n.turnDebt now i := by
  rw [turnDebt, turnDebt, halarm]
  cases hm : m.dodags.find? i with
  | none =>
    have hnone : n.dodags.find? i = none := by simpa [hm, eq_comm] using hphase
    rw [hnone]
  | some d' =>
    obtain ⟨d, hd, hphase⟩ : ∃ d, n.dodags.find? i = some d ∧ d.phase = d'.phase := by
      simpa [hm, eq_comm] using hphase
    rw [hd]
    cases n.alarms.deadline? (.advertise i) with
    | none => rfl
    | some due => simp only [Dodag.turnLag, hphase]

theorem parentDebt_congr (hpref : m.preferred? i = n.preferred? i)
    (hwatch : ∀ a, m.alarms.deadline? (.watch i a) = n.alarms.deadline? (.watch i a))
    (hprobe : ∀ a, m.alarms.deadline? (.probe i a) = n.alarms.deadline? (.probe i a)) :
    m.parentDebt now i = n.parentDebt now i := by
  simp only [parentDebt, hpref, hwatch, hprobe]

/-! ## Every alarm that rings lowers the backlog -/

theorem Rang.debt_eq (h : Rang p n m e q) (hi : q.inst? ≠ some i) :
    m.debt now i = n.debt now i := by
  have halarm (q' : Purpose) (hq' : q'.inst? = some i) :
      m.alarms.deadline? q' = n.alarms.deadline? q' :=
    h.deadline?_eq_of_inst? (by rw [hq']; exact hi.symm)
  rw [debt, debt, turnDebt_congr (by rw [h.find?_eq hi]) (halarm _ rfl), halarm (.report i) rfl,
    parentDebt_congr (h.keeps.preferred? i) (fun _ => halarm _ rfl) fun _ => halarm _ rfl]

/-- The other alarms of an instance do not change what is owed to its trickle timer. -/
theorem Rang.turnDebt_eq (h : Rang p n m e q) (hq : q ≠ .advertise i) :
    m.turnDebt now i = n.turnDebt now i := by
  have hnext : .advertise i ≠ q.next := by
    cases q <;> simp_all [Purpose.next, eq_comm]
  refine turnDebt_congr ?_ (h.deadline?_eq hq.symm hnext)
  cases h with
  | ticked hdodags | delayed _ hdodags | reported _ hdodags | probed _ _ _ _ _ hdodags =>
    rw [hdodags]
  | turned _ ht =>
    rw [ht.dodags, if_neg]
    rintro rfl
    exact hq rfl
  | @missed j a d w after hfind _ _ _ hdodags =>
    rw [hdodags, putWatch, putDodag, Table.find?_insert]
    split
    · rename_i hij
      rw [hij, hfind]
      rfl
    · rfl

/-- Alarms that are about no parent do not change what is owed to those that are. -/
theorem Rang.parentDebt_eq (h : Rang p n m e q) (hq : q = .advertise i ∨ q = .report i) :
    m.parentDebt now i = n.parentDebt now i := by
  refine parentDebt_congr (h.keeps.preferred? i) (fun a => h.deadline?_eq ?_ ?_)
    fun a => h.deadline?_eq ?_ ?_
  all_goals rcases hq with rfl | rfl <;> simp [Purpose.next]

/-- An alarm of an instance that rings lowers what is owed to the alarms of the instance. -/
theorem Rang.debt_lt (h : Rang p n m e q) (hn : n.Orderly p) (hi : q.inst? = some i)
    (hd : n.alarms.deadline? q = some e) (hle : e ≤ now) (hnow : now.ticks < maxTicks)
    (hpostpone : 1 ≤ p.postponeDelay.ticks) : m.debt now i < n.debt now i := by
  have hpref := h.keeps.preferred? i
  have hlag := Instant.lag_pos hle
  rw [debt, debt]
  cases q with
  | upkeep => cases hi
  | advertise j =>
    obtain rfl := Option.some.inj hi
    have hreport : m.alarms.deadline? (.report j) = n.alarms.deadline? (.report j) :=
      h.deadline?_eq (by simp) (by simp [Purpose.next])
    have hparent : m.parentDebt now j = n.parentDebt now j := h.parentDebt_eq (.inl rfl)
    have hturn : m.turnDebt now j < n.turnDebt now j := by
      cases h with
      | @turned _ d d' after hfind ht =>
        have hfind' : m.dodags.find? j = some d' := by rw [ht.dodags, if_pos rfl]
        have hdue : m.alarms.deadline? (.advertise j) = some (e + after) := by simp [ht.alarms]
        rw [Node.turnDebt_eq hfind hd, Node.turnDebt_eq hfind' hdue]
        exact ht.turn.turnLag_lt (hn.paced j d hfind) hle hnow hpostpone
    rw [hparent, hreport]
    omega
  | report j =>
    obtain rfl := Option.some.inj hi
    have hlt := Instant.lag_add_lt_lag hnow hle hpostpone
    have hturn : m.turnDebt now j = n.turnDebt now j := h.turnDebt_eq (by simp)
    have hparent : m.parentDebt now j = n.parentDebt now j := h.parentDebt_eq (.inr rfl)
    rw [hturn, hparent, hd]
    cases h with
    | delayed _ _ halarms =>
      rw [halarms, AlarmTable.deadline?_set, if_pos rfl, lag?_some, lag?_some]
      omega
    | reported _ _ halarms =>
      rw [halarms, AlarmTable.deadline?_stop, if_pos rfl, lag?_none, lag?_some]
      omega
  | watch j a =>
    obtain rfl := Option.some.inj hi
    have hturn : m.turnDebt now j = n.turnDebt now j := h.turnDebt_eq (by simp)
    have hreport : m.alarms.deadline? (.report j) = n.alarms.deadline? (.report j) :=
      h.deadline?_eq (by simp) (by simp [Purpose.next])
    cases h with
    | @missed _ _ d w after hfind hp _ hafter _ halarms =>
      have hlt := Instant.lag_add_lt_lag hnow hle hafter
      have hpref' : n.preferred? j = some a := (preferred?_of_find? hfind).trans hp
      rw [hturn, hreport, Node.parentDebt_eq hpref', Node.parentDebt_eq (hpref.trans hpref'), hd]
      simp only [halarms, AlarmTable.deadline?_set, AlarmTable.deadline?_stop, reduceCtorEq,
        if_false, if_true, lag?_none, lag?_some]
      omega
  | probe j a =>
    obtain rfl := Option.some.inj hi
    have hturn : m.turnDebt now j = n.turnDebt now j := h.turnDebt_eq (by simp)
    have hreport : m.alarms.deadline? (.report j) = n.alarms.deadline? (.report j) :=
      h.deadline?_eq (by simp) (by simp [Purpose.next])
    cases h with
    | @probed _ _ d w after hfind hp _ _ hafter _ halarms =>
      have hlt := Instant.lag_add_lt_lag hnow hle hafter
      have hpref' : n.preferred? j = some a := (preferred?_of_find? hfind).trans hp
      rw [hturn, hreport, Node.parentDebt_eq hpref', Node.parentDebt_eq (hpref.trans hpref'), hd]
      simp only [halarms, AlarmTable.deadline?_set, reduceCtorEq, if_false, if_true, lag?_some]
      omega

/-- Every alarm that rings lowers the backlog. -/
theorem Rang.backlog_lt (h : Rang p n m e q) (hn : n.Orderly p)
    (hd : n.alarms.deadline? q = some e) (hle : e ≤ now) (hnow : now.ticks < maxTicks)
    (hupkeep : 1 ≤ p.upkeepInterval.ticks) (hpostpone : 1 ≤ p.postponeDelay.ticks) :
    m.backlog now < n.backlog now := by
  rw [backlog, backlog, h.keys_eq]
  cases hi : q.inst? with
  | none =>
    have hdebts : n.dodags.keys.map (m.debt now) = n.dodags.keys.map (n.debt now) :=
      List.map_congr_left fun i _ => h.debt_eq (by simp [hi])
    obtain rfl : q = .upkeep := by
      cases q <;> simp_all [Purpose.inst?]
    have hlt := Instant.lag_add_lt_lag hnow hle hupkeep
    cases h with
    | ticked _ halarms =>
      rw [hdebts, halarms, AlarmTable.deadline?_set, if_pos rfl, hd]
      simp only [lag?_some]
      omega
  | some i =>
    have hmem : i ∈ n.dodags.keys := by
      rw [Table.mem_keys_iff]
      exact (hn.owned q (AlarmTable.holds_of_deadline? hd)).joined hi
    have hlt := h.debt_lt hn hi hd hle hnow hpostpone
    have hle (j : InstanceId) : m.debt now j ≤ n.debt now j := by
      by_cases hj : q.inst? = some j
      · obtain rfl := Option.some.inj (hi.symm.trans hj)
        exact Nat.le_of_lt hlt
      · exact Nat.le_of_eq (h.debt_eq hj)
    have hsum := List.sum_lt_sum _ _ (fun j _ => hle j) ⟨i, hmem, hlt⟩
    have hticker : m.alarms.deadline? .upkeep = n.alarms.deadline? .upkeep :=
      h.deadline?_eq_of_inst? (by rw [hi, Purpose.inst?]; simp)
    rw [hticker]
    omega

/-! ## The budget -/

/-- An alarm that is due has a part in the backlog. -/
theorem Orderly.backlog_pos (hn : n.Orderly p) (hd : n.alarms.deadline? q = some e)
    (hle : e ≤ now) : 0 < n.backlog now := by
  have hlag := Instant.lag_pos hle
  have hown := hn.owned q (AlarmTable.holds_of_deadline? hd)
  have hdebt (i : InstanceId) (hi : q.inst? = some i) (hpos : 0 < n.debt now i) :
      0 < n.backlog now := by
    have hmem := List.mem_map_of_mem (f := n.debt now) (Table.mem_keys_iff.2 (hown.joined hi))
    have hsum := List.single_le_sum (by simp) _ hmem
    rw [backlog]
    omega
  cases q with
  | upkeep =>
    rw [backlog, hd, lag?_some]
    omega
  | advertise i =>
    obtain ⟨d, hfind⟩ := Table.contains_iff.1 hown
    refine hdebt i rfl ?_
    rw [debt, turnDebt_eq hfind hd, Dodag.turnLag]
    omega
  | report i =>
    refine hdebt i rfl ?_
    rw [debt, hd, lag?_some]
    omega
  | watch i a | probe i a =>
    refine hdebt i rfl ?_
    rw [debt, parentDebt_eq hown, hd, lag?_some]
    omega

theorem lag?_le (due : Option Instant) (now : Instant) : lag? due now ≤ 2 * now.ticks + 1 := by
  cases due with
  | none => exact Nat.zero_le _
  | some due =>
    rw [lag?_some, Instant.lag]
    split <;> omega

/-- No instance is owed more than its share of the budget. -/
theorem debt_le (n : Node ρ) (now : Instant) (i : InstanceId) :
    n.debt now i ≤ 8 * (now.ticks + 1) := by
  have hturn : n.turnDebt now i ≤ 2 * now.ticks + 2 := by
    unfold turnDebt
    split
    · rename_i d due _ _
      have hlag := lag?_le (some due) now
      rw [lag?_some] at hlag
      unfold Dodag.turnLag
      split <;> omega
    · exact Nat.zero_le _
  have hreport := lag?_le (n.alarms.deadline? (.report i)) now
  have hparent : n.parentDebt now i ≤ 4 * now.ticks + 2 := by
    unfold parentDebt
    split
    · rename_i a _
      have hwatch := lag?_le (n.alarms.deadline? (.watch i a)) now
      have hprobe := lag?_le (n.alarms.deadline? (.probe i a)) now
      omega
    · exact Nat.zero_le _
  rw [debt]
  omega

/-- No backlog exceeds the budget. -/
theorem backlog_le (n : Node ρ) (now : Instant) : n.backlog now ≤ n.ringBudget now := by
  have hupkeep := lag?_le (n.alarms.deadline? .upkeep) now
  have hsum := List.sum_le_card_nsmul (n.dodags.keys.map (n.debt now)) (8 * (now.ticks + 1)) (by
    simpa using fun i _ => n.debt_le now i)
  rw [List.length_map, Table.length_keys, smul_eq_mul] at hsum
  calc n.backlog now
      ≤ 2 * (now.ticks + 1) + n.dodags.size * (8 * (now.ticks + 1)) := by
        rw [backlog]
        omega
    _ = n.ringBudget now := by
        rw [ringBudget]
        ring

/-! ## The loop -/

variable [RandomSource ρ]

/-- Letting an alarm ring keeps what the loop needs and lowers the backlog. -/
theorem ring_backlog (hupkeep : 1 ≤ p.upkeepInterval.ticks) (hpostpone : 1 ≤ p.postponeDelay.ticks)
    (hnow : now.ticks < maxTicks) (n : Node ρ) (r : Ring) (alarms : AlarmTable) (m : Node ρ)
    (hn : n.SoundTracks ∧ n.Orderly p) (hring : n.alarms.ring? now = some (r, alarms))
    (hm : handleRing p { n with alarms } r = .ok m) :
    (m.SoundTracks ∧ m.Orderly p) ∧ m.backlog now < n.backlog now := by
  obtain ⟨hd, hle, -, -⟩ := AlarmTable.ring?_eq_some hring
  obtain ⟨hrang, horderly⟩ := ring_orderly hn hring hm
  exact ⟨horderly, hrang.backlog_lt hn.2 hd hle hnow hupkeep hpostpone⟩

/-- On a reachable node the budget is enough to let every alarm ring that is due. -/
theorem settles_handleTimer (hn : Reachable p n) (hupkeep : 1 ≤ p.upkeepInterval.ticks)
    (hpostpone : 1 ≤ p.postponeDelay.ticks) (hnow : now.ticks < maxTicks) :
    Settles p now n (handleTimer p n now) := by
  refine ringAll_settles (ring_backlog hupkeep hpostpone hnow) ?_ ⟨hn.soundTracks, hn.orderly⟩
    (n.backlog_le now)
  rintro n ⟨r, alarms⟩ hn hring
  obtain ⟨hd, hle, -, -⟩ := AlarmTable.ring?_eq_some hring
  exact hn.2.backlog_pos hd hle

/-- Not more alarms ring in one call than its budget allows. -/
theorem Rung.length_le {ms : List (Moment ρ)} (h : Rung p now n ms m) (hn : Reachable p n)
    (hupkeep : 1 ≤ p.upkeepInterval.ticks) (hpostpone : 1 ≤ p.postponeDelay.ticks)
    (hnow : now.ticks < maxTicks) : ms.length ≤ n.ringBudget now := by
  have hlength := (h.length_add_le (ring_backlog hupkeep hpostpone hnow)
    ⟨hn.soundTracks, hn.orderly⟩).2
  have hbudget := n.backlog_le now
  omega

end Node

end TrickleNet
