import Mathlib
import TrickleNet.Proofs.Rang
/-!
# Whose alarms a node keeps

A reachable node has slots for alarms that it owns and for no others, so it never holds more than
one slot and four for each instance (`alarms_are_owned`), and every alarm that rings finds what its
handler asks for (`Node.Answers`).
-/

namespace TrickleNet.Node

variable {ρ : Type} {p : Platform} {n k : Node ρ} {i : InstanceId} {a : Address} {q : Purpose}
  {now e : Instant}

/-- What the handler of an alarm asks for before it acts: the instance is joined, the parent is
preferred and registered, and a parent to be probed is silent. -/
def Answers (n : Node ρ) : Purpose → Prop
  | .upkeep => True
  | .advertise i | .report i => n.dodags.contains i = true
  | .watch i a => ∃ d w, n.dodags.find? i = some d ∧ d.preferred = some a ∧
      d.parents.find? a = some w
  | .probe i a => ∃ d w, n.dodags.find? i = some d ∧ d.preferred = some a ∧
      d.parents.find? a = some w ∧ w.stage = .silent

/-- The alarms of an orderly node find what their handlers ask for. -/
theorem Orderly.answers (hn : n.Orderly p) (hs : n.SoundTracks)
    (hd : n.alarms.deadline? q = some e) : n.Answers q := by
  have hown := hn.owned q (AlarmTable.holds_of_deadline? hd)
  cases q with
  | upkeep => trivial
  | advertise i | report i => exact hown
  | watch i a =>
    obtain ⟨w, hw⟩ := (hs i a).registered hown
    obtain ⟨d, hfind, hpref, hw⟩ := dodag_of_track (n := n) hown hw
    exact ⟨d, w, hfind, hpref, hw⟩
  | probe i a =>
    obtain ⟨w, hw⟩ := (hs i a).registered hown
    have hsilent : w.stage = .silent := by
      rw [← (hs i a).probing_iff hown w hw]
      show (n.alarms.deadline? (.probe i a)).isSome = true
      rw [hd]
      rfl
    obtain ⟨d, hfind, hpref, hw⟩ := dodag_of_track (n := n) hown hw
    exact ⟨d, w, hfind, hpref, hw, hsilent⟩

/-! ## How many slots there are -/

/-- The alarms that a node owns in an instance that it belongs to. -/
def purposesIn (n : Node ρ) (i : InstanceId) : List Purpose :=
  [.advertise i, .report i] ++ (n.preferred? i).toList.flatMap fun a => [.watch i a, .probe i a]

/-- The alarms that a node owns. -/
def purposes (n : Node ρ) : List Purpose := .upkeep :: n.dodags.keys.flatMap n.purposesIn

theorem Owns.mem_purposes (h : n.Owns q) : q ∈ n.purposes := by
  rw [purposes, List.mem_cons, List.mem_flatMap]
  cases q with
  | upkeep => exact .inl rfl
  | advertise i | report i => exact .inr ⟨i, Table.mem_keys_iff.2 h, by simp [purposesIn]⟩
  | watch i a | probe i a =>
    refine .inr ⟨i, Table.mem_keys_iff.2 (h.joined rfl), ?_⟩
    rw [purposesIn, show n.preferred? i = some a from h]
    simp

theorem length_purposesIn_le (n : Node ρ) (i : InstanceId) : (n.purposesIn i).length ≤ 4 := by
  rw [purposesIn]
  cases n.preferred? i <;> simp

/-- There are at most four alarms for each instance, and one more. -/
theorem length_purposes_le (n : Node ρ) : n.purposes.length ≤ 1 + 4 * n.dodags.size := by
  have hsum := List.sum_le_card_nsmul (n.dodags.keys.map fun i => (n.purposesIn i).length) 4 (by
    simpa using fun i _ => n.length_purposesIn_le i)
  rw [List.length_map, Table.length_keys, smul_eq_mul] at hsum
  rw [purposes, List.length_cons, List.length_flatMap]
  omega

/-- An orderly node has no more slots than it owns alarms. -/
theorem Orderly.size_slots_le (hn : n.Orderly p) : n.alarms.slots.size ≤ 1 + 4 * n.dodags.size := by
  have hsubset : n.alarms.slots.keys ⊆ n.purposes := by
    intro q hq
    exact (hn.owned q (Table.mem_keys_iff.1 hq)).mem_purposes
  calc n.alarms.slots.size
      = n.alarms.slots.keys.length := (Table.length_keys _).symm
    _ ≤ n.purposes.length := (List.subperm_of_subset (Table.nodup_keys _) hsubset).length_le
    _ ≤ 1 + 4 * n.dodags.size := n.length_purposes_le

theorem Orderly.armed_iff (hn : n.Orderly p) :
    n.alarms.isArmed (.advertise i) = true ↔ n.dodags.contains i = true := by
  refine ⟨fun h => ?_, hn.armed i⟩
  obtain ⟨d, hd⟩ := AlarmTable.isArmed_iff.1 h
  exact hn.owned _ (AlarmTable.holds_of_deadline? hd)

/-! ## Reachable nodes -/

variable [RandomSource ρ]

/-- A reachable node owns every alarm that it has a slot for, armed or not: it belongs to the
instance, and a parent that is watched or probed is the preferred one.  The preferred parent is
registered, exactly the trickle timers of joined instances run, and the tables keep to the
platform's bounds.  So there are at most one slot and four for each instance, and whenever an alarm
rings in a call, also after others have rung, its handler finds what it asks for. -/
theorem alarms_are_owned (p : Platform) (n : Node ρ) (hn : Reachable p n) :
    (∀ q, n.alarms.Holds q → n.Owns q) ∧
    (∀ i a, n.preferred? i = some a → ∃ w, n.watch? i a = some w) ∧
    (∀ i, n.alarms.isArmed (.advertise i) = true ↔ n.dodags.contains i = true) ∧
    n.dodags.size ≤ p.maxInstances ∧
    (∀ i d, n.dodags.find? i = some d → d.parents.size ≤ p.maxParents) ∧
    n.alarms.slots.size ≤ 1 + 4 * n.dodags.size ∧
    ∀ now ms k r alarms, Rung p now n ms k → k.alarms.ring? now = some (r, alarms) →
      Answers { k with alarms } r.purpose := by
  have hs := hn.soundTracks
  have ho := hn.orderly
  refine ⟨ho.owned, fun i a => (hs i a).registered, fun i => ho.armed_iff, ho.instances, ho.parents,
    ho.size_slots_le, ?_⟩
  intro now ms k r alarms hrung hring
  obtain ⟨hd, -⟩ := AlarmTable.ring?_eq_some hring
  -- The handler sees the alarm silenced already, which is none of its conditions.
  show k.Answers r.purpose
  exact (hrung.trail.orderly hs ho).answers (hrung.trail.soundTracks hs) hd

/-- Requests to a node that leaves an instance and joins it again, hears a parent there at boot, and
finds it silent after the window of 400 ms. -/
def joinedAgain : List (Operation × Instant) :=
  [(.join 1 { minExponent := 30 }, .zero), (.addParent 1 (.linkLocal 2), .zero),
    (.command (.setPreferred 1 (some (.linkLocal 2))), .zero),
    (.command (.dioReceived 1 (.linkLocal 2) {}), .zero), (.leave 1, .zero),
    (.join 1 { minExponent := 30 }, .zero), (.addParent 1 (.linkLocal 3), .zero),
    (.command (.setPreferred 1 (some (.linkLocal 3))), .zero),
    (.command (.dioReceived 1 (.linkLocal 3) {}), .zero), (.handleTimer, .ofTicks 400)]

/-- The parent that is silent is to be probed, and the alarm of its window keeps its slot.  Nothing
is left of the parent that was preferred before the node left the instance. -/
theorem alarms_are_owned_after_rejoining :
    ∃ ms n, record .millis joinedAgain (.new (Generator.fixed 0) .zero true) = .ok (ms, n) ∧
      n.alarms.Holds (.watch 1 (.linkLocal 3)) ∧ n.Owns (.watch 1 (.linkLocal 3)) ∧
      ¬n.alarms.Holds (.watch 1 (.linkLocal 2)) ∧ n.alarms.slots.size = 3 ∧ n.dodags.size = 1 ∧
      n.alarms.slots.size ≤ 1 + 4 * n.dodags.size ∧
      ∃ r alarms, n.alarms.ring? (.ofTicks 1000) = some (r, alarms) ∧
        r.purpose = .probe 1 (.linkLocal 3) ∧ Answers { n with alarms } r.purpose := by
  have hreach (ms : List (Moment Generator)) (n : Node Generator)
      (h : record .millis joinedAgain (.new (.fixed 0) .zero true) = .ok (ms, n)) :
      Reachable .millis n := reachable_of_record h
  refine ⟨_, _, rfl, rfl, ?_, Bool.false_ne_true, rfl, rfl, ?_, _, _, rfl, rfl, ?_⟩
  · exact (alarms_are_owned _ _ (hreach _ _ rfl)).1 _ rfl
  · exact (alarms_are_owned _ _ (hreach _ _ rfl)).2.2.2.2.2.1
  · exact (alarms_are_owned _ _ (hreach _ _ rfl)).2.2.2.2.2.2 (.ofTicks 1000) _ _ _ _ .start rfl

end TrickleNet.Node
