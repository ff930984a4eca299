/-!
# Powers and bounds

Powers of two and of ten, and the bounds of whole numbers that have a fixed number of bits.
-/

namespace PlanReplay

/-- A power of two. -/
def twoTo (n : Nat) : Nat := Nat.pow 2 n

/-- A power of ten. -/
def tenTo (n : Nat) : Nat := Nat.pow 10 n

/-- The greatest number of 16 bits. -/
def maxUInt16 : Nat := 65535

/-- The greatest number of 32 bits. -/
def maxUInt32 : Nat := 4294967295

/-- The greatest number of 64 bits. -/
def maxUInt64 : Nat := 18446744073709551615

/-- The least number of 32 bits with sign. -/
def minInt32 : Int := -2147483648

/-- The greatest number of 32 bits with sign. -/
def maxInt32 : Int := 2147483647

/-- The least number of 64 bits with sign. -/
def minInt64 : Int := -9223372036854775808

/-- The greatest number of 64 bits with sign. -/
def maxInt64 : Int := 9223372036854775807

example : maxUInt16 = twoTo 16 - 1 ∧ maxUInt32 = twoTo 32 - 1 ∧ maxUInt64 = twoTo 64 - 1 := by decide

example : minInt32 = -(twoTo 31) ∧ maxInt32 = twoTo 31 - 1 ∧ minInt64 = -(twoTo 63) ∧ maxInt64 = twoTo 63 - 1 := by
  decide

end PlanReplay
