import Mathlib.Data.Nat.Notation

/-! The 64-bit Mersenne Twister, `std::mt19937_64`, as the sequence of words it yields for a seed.

    Word `i` of the generator's recurrence is a seed word for `i < 312`; later words combine the
    words 156, 311 and 312 places back. Call `k` yields word `312 + k`, tempered. -/

namespace Lib.Mt64

/-- The initial words: `x₀` is the seed. -/
def seedWord (seed : UInt64) : ℕ → UInt64
  | 0 => seed
  | i + 1 =>
    let x : UInt64 := seedWord seed i
    (6364136223846793005 : UInt64) * (x ^^^ (x >>> 62)) + UInt64.ofNat (i + 1)

/-- The twist of two neighbouring words. -/
def twist (x y : UInt64) : UInt64 :=
  let z := (x &&& 0xFFFFFFFF80000000) ||| (y &&& 0x7FFFFFFF)
  (z >>> 1) ^^^ (if z &&& 1 = 0 then 0 else 0xB5026F5AA96619E9)

/-- The recurrence; every reference goes at least 156 places back, which bounds its depth. -/
def word (seed : UInt64) : ℕ → ℕ → UInt64
  | 0, i => seedWord seed i
  | depth + 1, i =>
    if i < 312 then seedWord seed i
    else word seed depth (i - 156) ^^^ twist (word seed depth (i - 312)) (word seed depth (i - 311))

def temper (x : UInt64) : UInt64 :=
  let x := x ^^^ ((x >>> 29) &&& 0x5555555555555555)
  let x := x ^^^ ((x <<< 17) &&& 0x71D67FFFEDA60000)
  let x := x ^^^ ((x <<< 37) &&& 0xFFF7EEE000000000)
  x ^^^ (x >>> 43)

/-- The word yielded by call `k` after seeding. -/
def draw (seed : UInt64) (k : ℕ) : UInt64 :=
  temper (word seed ((312 + k) / 156) (312 + k))

end Lib.Mt64
