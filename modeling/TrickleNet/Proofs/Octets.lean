import Mathlib
import TrickleNet.Proofs.Neighbors
import TrickleNet.Proofs.Sound
/-!
# Addresses as bytes

The order of addresses is the one of the numbers they are.  `Address.octets_lt_iff` says that it is
the lexicographic order of their bytes too: bytes of one length are in order exactly if the numbers
they write are (`Octets.lt_iff_value_lt`), since the most significant byte stands first.

So the address of an index is its prefix followed by the bytes of the index
(`Address.octets_linkLocal`), addresses are in order exactly if their indices are
(`Address.linkLocal_lt_iff`), and an address can be told from its index exactly if it starts with
the prefix (`Address.linkLocal_index_eq_iff`).  In a simulation this makes the order of the
addresses the order in which the stations were switched on (`Simulation.Run.created_eq`).
-/

namespace TrickleNet

namespace Octets

/-- The number that bytes write, the most significant one first. -/
def value : List UInt8 → Nat
  | [] => 0
  | b :: bs => b.toNat * 256 ^ bs.length + value bs

/-- The last bytes of a number, the most significant one first. -/
def write (n : Nat) : (count : Nat) → List UInt8
  | 0 => []
  | count + 1 => UInt8.ofNat (n / 256 ^ count) :: write n count

variable {l l' : List UInt8}

@[simp] theorem length_write (n count : Nat) : (write n count).length = count := by
  induction count with
  | zero => rfl
  | succ count ih => rw [write, List.length_cons, ih]

theorem value_lt (l : List UInt8) : value l < 256 ^ l.length := by
  induction l with
  | nil => exact Nat.one_pos
  | cons b l ih =>
    have hb := b.toNat_lt
    have hdigit : b.toNat * 256 ^ l.length ≤ 255 * 256 ^ l.length :=
      Nat.mul_le_mul_right _ (by omega)
    rw [value, List.length_cons, Nat.pow_succ]
    omega

theorem value_append (l l' : List UInt8) :
    value (l ++ l') = value l * 256 ^ l'.length + value l' := by
  induction l with
  | nil => simp [value]
  | cons b l ih =>
    rw [List.cons_append, value, value, ih, List.length_append, pow_add]
    ring

theorem value_write (n count : Nat) : value (write n count) = n % 256 ^ count := by
  induction count with
  | zero => simp [write, value, Nat.mod_one]
  | succ count ih =>
    have hdigit : (UInt8.ofNat (n / 256 ^ count)).toNat = n / 256 ^ count % 256 :=
      UInt8.toNat_ofNat'
    rw [write, value, length_write, ih, hdigit, Nat.pow_succ, Nat.mod_mul, Nat.mul_comm,
      Nat.add_comm]

/-- Of two numbers with remainders the quotients decide which is less, unless they are equal. -/
theorem mul_add_lt_iff {m q q' r r' : Nat} (hr : r < m) (hr' : r' < m) :
    q * m + r < q' * m + r' ↔ q < q' ∨ q = q' ∧ r < r' := by
  have hstep {i j : Nat} (h : i < j) : i * m + m ≤ j * m := by
    rw [← Nat.succ_mul]
    exact Nat.mul_le_mul_right m h
  rcases Nat.lt_trichotomy q q' with hlt | rfl | hlt
  · have := hstep hlt
    omega
  · omega
  · have := hstep hlt
    omega

/-- Bytes of one length are in lexicographic order exactly if the numbers they write are in
order. -/
theorem lt_iff_value_lt (h : l.length = l'.length) : l < l' ↔ value l < value l' := by
  induction l generalizing l' with
  | nil =>
    obtain rfl := List.length_eq_zero_iff.1 h.symm
    simp
  | cons b l ih =>
    cases l' with
    | nil => cases h
    | cons b' l' =>
      have hlength : l.length = l'.length := Nat.succ.inj h
      have hl := value_lt l
      rw [hlength] at hl
      rw [List.cons_lt_cons_iff, ih hlength, value, value, hlength,
        mul_add_lt_iff hl (value_lt l'), UInt8.lt_iff_toNat_lt, UInt8.toNat_inj]

/-- Bytes of one length are the same if they write the same number. -/
theorem eq_of_value_eq (h : l.length = l'.length) (hvalue : value l = value l') : l = l' := by
  refine List.le_antisymm ?_ ?_
  · rw [← List.not_lt, lt_iff_value_lt h.symm, hvalue]
    exact Nat.lt_irrefl _
  · rw [← List.not_lt, lt_iff_value_lt h, hvalue]
    exact Nat.lt_irrefl _

end Octets

namespace Address

theorem octets_eq_write (a : Address) : a.octets = Octets.write a.bits.toNat 16 := by
  have hoctet (k : Nat) : (⟨(a.bits >>> (8 * k)).setWidth 8⟩ : UInt8) =
      UInt8.ofNat (a.bits.toNat / 256 ^ k) := by
    apply UInt8.toNat_inj.1
    rw [UInt8.toNat_ofNat', show (256 : Nat) = 2 ^ 8 from rfl, ← Nat.pow_mul,
      ← Nat.shiftRight_eq_div_pow]
    show ((a.bits >>> (8 * k)).setWidth 8).toNat = _
    rw [BitVec.toNat_setWidth, BitVec.toNat_ushiftRight]
  simp only [octets, hoctet]
  rfl

@[simp] theorem length_octets (a : Address) : a.octets.length = 16 := by
  rw [octets_eq_write, Octets.length_write]

/-- An address is the number that its bytes write. -/
theorem value_octets (a : Address) : Octets.value a.octets = a.bits.toNat := by
  rw [octets_eq_write, Octets.value_write]
  exact Nat.mod_eq_of_lt a.bits.isLt

/-- Addresses are ordered as their bytes are. -/
theorem octets_lt_iff {a b : Address} : a.octets < b.octets ↔ a < b := by
  rw [Octets.lt_iff_value_lt (by simp), value_octets, value_octets]
  rfl

/-- The upper half of the bytes writes the upper half of the bits, and the lower half the index. -/
theorem value_halves (a : Address) :
    Octets.value (a.octets.take 8) = a.bits.toNat / 2 ^ 64 ∧
      Octets.value (a.octets.drop 8) = a.index.toNat := by
  have hdrop : (a.octets.drop 8).length = 8 := by simp
  have hlt := Octets.value_lt (a.octets.drop 8)
  have hsum := Octets.value_append (a.octets.take 8) (a.octets.drop 8)
  rw [List.take_append_drop, value_octets, hdrop] at hsum
  rw [hdrop] at hlt
  have hindex : a.index.toNat = a.bits.toNat % 2 ^ 64 := BitVec.toNat_setWidth 64 a.bits
  rw [hindex]
  omega

/-- The bytes with which every link-local address starts. -/
def linkLocalPrefix : List UInt8 := [0xfe, 0x80, 0, 0, 0, 0, 0, 0]

theorem toNat_bits_linkLocal (n : UInt64) :
    (linkLocal n).bits.toNat = Octets.value linkLocalPrefix * 2 ^ 64 + n.toNat := by
  have hn : n.toBitVec.toNat < 2 ^ 64 := n.toBitVec.isLt
  rw [linkLocal, BitVec.toNat_append, ← Nat.shiftLeft_add_eq_or_of_lt hn, Nat.shiftLeft_eq]
  rfl

/-- A link-local address is the prefix followed by the eight bytes of its index. -/
theorem octets_linkLocal (n : UInt64) :
    (linkLocal n).octets = linkLocalPrefix ++ Octets.write n.toNat 8 := by
  have hn : n.toNat < 256 ^ 8 := n.toNat_lt
  refine Octets.eq_of_value_eq (by simp [linkLocalPrefix]) ?_
  rw [value_octets, toNat_bits_linkLocal, Octets.value_append, Octets.length_write,
    Octets.value_write, Nat.mod_eq_of_lt hn]
  rfl

/-- Link-local addresses are ordered as their indices are. -/
theorem linkLocal_lt_iff {m n : UInt64} : linkLocal m < linkLocal n ↔ m < n := by
  show (linkLocal m).bits.toNat < (linkLocal n).bits.toNat ↔ _
  rw [toNat_bits_linkLocal, toNat_bits_linkLocal, UInt64.lt_iff_toNat_lt]
  exact Nat.add_lt_add_iff_left

/-- An address comes of its index exactly if it starts with the prefix. -/
theorem linkLocal_index_eq_iff {a : Address} :
    linkLocal a.index = a ↔ a.octets.take 8 = linkLocalPrefix := by
  obtain ⟨hupper, hlower⟩ := value_halves a
  constructor
  · intro h
    rw [← h, octets_linkLocal]
    rfl
  · intro h
    rw [h] at hupper
    apply Address.ext
    apply BitVec.eq_of_toNat_eq
    have hsum := Octets.value_append (a.octets.take 8) (a.octets.drop 8)
    rw [List.take_append_drop, value_octets, hlower, h] at hsum
    rw [toNat_bits_linkLocal, hsum, List.length_drop, length_octets]
    rfl

end Address

/-! ## The stations of a simulation -/

namespace Simulation

open Experiment (address)

variable {s s' : Simulation} {xs : List Scene} {c : Move} {i j : Nat} {seed : UInt64}

theorem address_lt_iff (hi : i < wordLimit64) (hj : j < wordLimit64) :
    address i < address j ↔ i < j := by
  rw [wordLimit64] at hi hj
  rw [address, address, Address.linkLocal_lt_iff, UInt64.lt_iff_toNat_lt, UInt64.toNat_ofNat',
    UInt64.toNat_ofNat', Nat.mod_eq_of_lt hi, Nat.mod_eq_of_lt hj]

/-- The stations have the first addresses, in the order of their indices. -/
theorem Sound.keys_eq (hs : s.Sound) :
    s.stations.keys = (List.range s.stations.size).map Experiment.address := by
  have hsize := hs.size_le
  have hnumber := hs.number_lt
  have hascending : ((List.range s.stations.size).map Experiment.address).Pairwise
      fun a b => rank a < rank b := by
    refine List.pairwise_map.2 (List.pairwise_lt_range.imp_of_mem fun {i j} hi hj hlt => ?_)
    rw [List.mem_range] at hi hj
    exact (address_lt_iff (by omega) (by omega)).2 hlt
  have hsubset : s.stations.keys ⊆ (List.range s.stations.size).map Experiment.address := by
    intro a ha
    obtain ⟨i, hi, rfl⟩ := hs.indexed a (Table.mem_keys_iff.1 ha)
    exact List.mem_map_of_mem (List.mem_range.2 hi)
  -- There are as many keys as addresses, so no address is left out.
  have hperm : s.stations.keys.Perm ((List.range s.stations.size).map Experiment.address) :=
    (List.subperm_of_subset s.stations.nodup_keys hsubset).perm_of_length_le (by simp)
  exact Table.eq_of_ascending s.stations.ascending_keys hascending fun a => hperm.mem_iff

/-- Switching on a station adds it. -/
theorem Sound.size_addStation (hs : s.Sound) (h : s.addStation seed = .ok s') :
    s'.stations.size = s.stations.size + 1 := by
  obtain ⟨t, ht, h⟩ := Checked.bind_eq_ok_iff.1 h
  obtain ⟨haddress, -⟩ := hs.after_call (.start ht)
  rw [(settled_of_settle h).stations, Table.size_insert]
  rw [haddress]
  exact hs.find?_nextAddress

/-- No other move adds a station. -/
theorem Sound.keys_proceed (hs : s.Sound) (h : s.proceed c = .ok s')
    (hc : ∀ seed, c ≠ .addStation seed) : s'.stations.keys = s.stations.keys := by
  rcases proceed_eq_ok h with ⟨hquiet, -⟩ | ⟨t, t', hcalled, hsettled⟩
  · rw [hquiet.keys_eq, stations_opened]
  · obtain ⟨haddress, -⟩ := hs.after_call hcalled
    rcases hcalled.before hs with ⟨seed, hadd, -⟩ | ⟨u, hu, -⟩
    · exact absurd hadd (hc seed)
    · rw [hsettled.stations, stations_opened, Table.keys_insert]
      rw [haddress]
      exact Table.contains_of_find? hu

/-- The address of the station that the move switches on. -/
def Scene.created? (x : Scene) : Option Address :=
  match x.move with
  | .addStation _ => some x.before.nextAddress
  | .form _ | .plan .. | .act _ | .edit .. | .sampleEvery _ | .event | .close _ => none

/-- Stations are switched on in the order of their addresses. -/
theorem Run.created_eq (hrun : Run (.new seed) xs s) :
    xs.filterMap Scene.created? = s.stations.keys := by
  induction hrun with
  | start => rfl
  | @move xs s s' c hrun hc ih =>
    have hs := hrun.sound
    rw [List.filterMap_append, ih]
    cases c with
    | addStation seed =>
      have hkeys := (hrun.move hc).sound.keys_eq
      rw [hs.size_addStation hc, List.range_succ, List.map_append] at hkeys
      rw [hkeys, hs.keys_eq]
      rfl
    | form | plan | act | edit | sampleEvery | event | close =>
      rw [hs.keys_proceed hc (by simp)]
      exact List.append_nil _

/-- Neighbours that have a place in a table are listed in the order of the table. -/
theorem neighbors_sublist_keys (m : RadioMap) (a : Address) (t : Table Address Station) :
    ((m.neighbors a).filter t.contains).Sublist t.keys := by
  have hsubset : (m.neighbors a).filter t.contains ⊆ t.keys := fun b hb =>
    Table.mem_keys_iff.2 (List.mem_filter.1 hb).2
  have hsubperm := List.subperm_of_subset ((m.nodup_neighbors a).filter _) hsubset
  have : Std.Antisymm fun b c : Address => rank b < rank c :=
    ⟨fun b c hbc hcb => (Nat.lt_asymm hbc hcb).elim⟩
  exact List.sublist_of_subperm_of_pairwise hsubperm ((m.ascending_neighbors a).filter _)
    t.ascending_keys

/-- An address gives back the index it was made from, and the addresses of two indices are in the
lexicographic order of their bytes exactly if the indices are in order.  For any two addresses this
order is the one by which links and neighbours are kept.  The index of an address is what its last
eight bytes write, and the addresses that are made from their index are those whose first eight
bytes are the prefix.

In every run the stations are therefore switched on in the order of their addresses, all of which
differ, and whatever links there are, the stations among the neighbours of a node are listed in the
order in which they were switched on. -/
theorem addresses_follow_indices :
    (∀ n, (Address.linkLocal n).index = n) ∧
    (∀ m n, (Address.linkLocal m).octets < (Address.linkLocal n).octets ↔ m < n) ∧
    (∀ a b : Address, a.octets < b.octets ↔ a < b) ∧
    (∀ n, (Address.linkLocal n).octets = Address.linkLocalPrefix ++ Octets.write n.toNat 8) ∧
    (∀ a : Address, a.index.toNat = Octets.value (a.octets.drop 8)) ∧
    (∀ a : Address, Address.linkLocal a.index = a ↔ a.octets.take 8 = Address.linkLocalPrefix) ∧
    ∀ seed xs s, Run (.new seed) xs s →
      xs.filterMap Scene.created? = (List.range s.stations.size).map address ∧
      (xs.filterMap Scene.created?).Nodup ∧
      s.stations.keys = xs.filterMap Scene.created? ∧
      ∀ (m : RadioMap) (a : Address),
        ((m.neighbors a).filter s.stations.contains).Sublist (xs.filterMap Scene.created?) := by
  refine ⟨Address.index_linkLocal, fun m n => ?_, fun _ _ => Address.octets_lt_iff,
    Address.octets_linkLocal, fun a => (Address.value_halves a).2.symm,
    fun _ => Address.linkLocal_index_eq_iff, fun seed xs s hrun => ?_⟩
  · rw [Address.octets_lt_iff, Address.linkLocal_lt_iff]
  · rw [hrun.created_eq]
    exact ⟨hrun.sound.keys_eq, s.stations.nodup_keys, rfl,
      fun m a => neighbors_sublist_keys m a s.stations⟩

/-- Three stations that all hear each other, linked before the last of them is there. -/
def gathered : List Move :=
  [.addStation 1, .addStation 2, .edit (.full [.linkLocal 2, .linkLocal 0, .linkLocal 1]) {},
    .addStation 3]

/-- However the links were listed, the neighbours stand in the order of the stations. -/
theorem addresses_follow_indices_of_three :
    ∃ xs s, record gathered (.new 42) = .ok (xs, s) ∧ s.stations.size = 3 ∧
      xs.filterMap Scene.created? = [.linkLocal 0, .linkLocal 1, .linkLocal 2] ∧
      s.radio.neighbors (.linkLocal 1) = [.linkLocal 0, .linkLocal 2] ∧
      ((s.radio.neighbors (.linkLocal 1)).filter s.stations.contains).Sublist
        (xs.filterMap Scene.created?) := by
  obtain ⟨xs, s, hrecord, hsize, hneighbors⟩ :
      ∃ xs s, record gathered (.new 42) = .ok (xs, s) ∧ s.stations.size = 3 ∧
      s.radio.neighbors (.linkLocal 1) = [.linkLocal 0, .linkLocal 2] := ⟨_, _, rfl, rfl, rfl⟩
  obtain ⟨-, -, -, -, -, -, hruns⟩ := addresses_follow_indices
  obtain ⟨hcreated, -, -, hsublist⟩ := hruns 42 xs s (run_of_record hrecord)
  refine ⟨xs, s, hrecord, hsize, ?_, hneighbors, hsublist s.radio _⟩
  rw [hcreated, hsize]
  rfl

end Simulation

end TrickleNet
