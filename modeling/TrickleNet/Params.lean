import TrickleNet.Refusal
/-!
# Trickle parameters

The parameters of a topology instance travel in its advertisements.  `TrickleParams.Valid` bounds
the largest interval exponent, one below `TrickleParams.exponentLimit` so that the exponent of the
interval after the largest still fits.
-/

namespace TrickleNet

/-- The name of a topology instance. -/
abbrev InstanceId := UInt8

/-- The trickle parameters of a topology instance. -/
structure TrickleParams where
  /-- The exponent of the shortest interval, which lasts `2 ^ minExponent` milliseconds. -/
  minExponent : UInt8 := 12
  /-- How often the interval may double. -/
  doublings : UInt8 := 8
  /-- How many consistent advertisements make one's own redundant. -/
  redundancy : UInt8 := 10
  /-- The lifetime that reports ask for. -/
  lifetime : UInt8 := 255
deriving DecidableEq, Repr

namespace TrickleParams

instance : Inhabited TrickleParams := ⟨{}⟩

/-- No interval may have an exponent this large; `2 ^ 40` milliseconds are about 35 years. -/
abbrev exponentLimit : Nat := 40

/-- The largest exponent lies below the limit. -/
def Valid (p : TrickleParams) : Prop := p.minExponent.toNat + p.doublings.toNat < exponentLimit

instance (p : TrickleParams) : Decidable p.Valid :=
  inferInstanceAs (Decidable (_ < _))

/-- The largest exponent the interval grows to, clamped to a byte. -/
def maxExponent (p : TrickleParams) : Nat := min (p.minExponent.toNat + p.doublings.toNat) 255

/-- The refusal of parameters that are not valid. -/
def check (p : TrickleParams) : Except Refusal Unit :=
  if p.Valid then .ok () else .error .invalidParams

/-- Valid parameters with the standard lifetime. -/
def ofExponents? (minExponent doublings redundancy : UInt8) : Except Refusal TrickleParams := do
  let p : TrickleParams := { minExponent, doublings, redundancy }
  p.check
  return p

/-- The same parameters with another lifetime. -/
def withLifetime (p : TrickleParams) (lifetime : UInt8) : TrickleParams := { p with lifetime }

theorem Valid.maxExponent_eq {p : TrickleParams} (h : p.Valid) :
    p.maxExponent = p.minExponent.toNat + p.doublings.toNat := by
  simp only [Valid, exponentLimit] at h
  simp only [maxExponent]
  omega

theorem Valid.maxExponent_lt {p : TrickleParams} (h : p.Valid) : p.maxExponent < exponentLimit := by
  rw [h.maxExponent_eq]
  exact h

end TrickleParams

end TrickleNet
