import TrickleNet.Table
/-!
# Addresses

An `Address` is a 128-bit word, ordered as a number; `Address.octets` is its view as sixteen bytes,
most significant first.  Simulated nodes carry the link-local addresses `Address.linkLocal`, which
hold a 64-bit index below the prefix `fe80::/64`.
-/

namespace TrickleNet

/-- The network address of a neighbour. -/
@[ext] structure Address where
  /-- The 128 bits, as one number. -/
  bits : BitVec 128
deriving DecidableEq, Repr

namespace Address

instance : LE Address := ⟨fun a b => a.bits ≤ b.bits⟩

instance : LT Address := ⟨fun a b => a.bits < b.bits⟩

instance (a b : Address) : Decidable (a ≤ b) := inferInstanceAs (Decidable (a.bits ≤ b.bits))

instance (a b : Address) : Decidable (a < b) := inferInstanceAs (Decidable (a.bits < b.bits))

/-- How many addresses there are. -/
abbrev count : Nat := 340282366920938463463374607431768211456

/-- Addresses rank as numbers. -/
instance : Ranked Address where
  rank a := a.bits.toNat
  rank_inj h := Address.ext (BitVec.eq_of_toNat_eq h)

theorem rank_lt (a : Address) : Ranked.rank a < count := a.bits.isLt

theorem le_iff {a b : Address} : a ≤ b ↔ Ranked.rank a ≤ Ranked.rank b := Iff.rfl

theorem lt_iff {a b : Address} : a < b ↔ Ranked.rank a < Ranked.rank b := Iff.rfl

/-- The link-local address with a given index: `fe80::` followed by the index in 64 bits. -/
def linkLocal (index : UInt64) : Address := ⟨0xfe80#16 ++ 0#48 ++ index.toBitVec⟩

/-- The index a link-local address was made from: the lower 64 bits. -/
def index (a : Address) : UInt64 := ⟨a.bits.setWidth 64⟩

/-- The sixteen bytes of the address, most significant first. -/
def octets (a : Address) : List UInt8 :=
  (List.range 16).map fun i => ⟨(a.bits >>> (8 * (15 - i))).setWidth 8⟩

/-- A hexadecimal digit, in lower case. -/
def hexDigit (n : Nat) : Char :=
  if n < 10 then Char.ofNat ('0'.toNat + n) else Char.ofNat ('a'.toNat + (n - 10))

/-- The address as 32 hexadecimal digits. -/
def toHex (a : Address) : String :=
  String.ofList (a.octets.flatMap fun o => [hexDigit (o.toNat / 16), hexDigit (o.toNat % 16)])

/-- The value of a hexadecimal digit of either case. -/
def hexValue? (c : Char) : Option Nat :=
  if '0' ≤ c ∧ c ≤ '9' then some (c.toNat - '0'.toNat)
  else if 'a' ≤ c ∧ c ≤ 'f' then some (c.toNat - 'a'.toNat + 10)
  else if 'A' ≤ c ∧ c ≤ 'F' then some (c.toNat - 'A'.toNat + 10)
  else none

/-- Reads an address from its 32 hexadecimal digits. -/
def ofHex? (s : String) : Option Address := do
  let digits ← s.toList.mapM hexValue?
  guard (digits.length = 32)
  return ⟨BitVec.ofNat 128 (digits.foldl (fun n d => 16 * n + d) 0)⟩

end Address

end TrickleNet
