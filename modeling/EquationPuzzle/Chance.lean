/-!
# Chance

Random choices drawn from a stream of 32-bit words.  A choice among `n` values multiplies a word by
`n`: the upper half of the product is the choice, and the lower half tells whether a second word is
needed to decide about a carry.  Two words toss a coin.
-/

namespace EquationPuzzle

/-- The number of 32-bit words. -/
abbrev wordCount : Nat := 4294967296

/-- An endless stream of random words, and how many of them have been taken. -/
structure WordSource where
  word : Nat → UInt32
  taken : Nat := 0

namespace WordSource

/-- The given words over and over again. -/
def cycle (first : UInt32) (rest : List UInt32) : WordSource where
  word index := (first :: rest).getD (index % (rest.length + 1)) first

/-- The upper halves of the 64-bit values of a mixed arithmetic progression. -/
def splitMix (seed : UInt64) : WordSource where
  word index :=
    let z := seed + 0x9E3779B97F4A7C15 * (UInt64.ofNat index + 1)
    let z := (z ^^^ (z >>> 30)) * 0xBF58476D1CE4E5B9
    let z := (z ^^^ (z >>> 27)) * 0x94D049BB133111EB
    let z := z ^^^ (z >>> 31)
    (z >>> 32).toUInt32

end WordSource

/-- A computation that takes words. -/
abbrev Draw := StateM WordSource

namespace Draw

def word : Draw UInt32 :=
  modifyGet fun source => (source.word source.taken, { source with taken := source.taken + 1 })

theorem product_lt {w n : Nat} (bound : w < wordCount) (positive : 0 < n) :
    w * n / wordCount < n := by
  rw [Nat.div_lt_iff_lt_mul (by decide), Nat.mul_comm n]
  exact Nat.mul_lt_mul_of_pos_right bound positive

/-- The last value is never reached with a lower half that could still carry. -/
theorem carry_lt {w n : Nat} (bound : w < wordCount) (positive : 0 < n)
    (undecided : wordCount < w * n % wordCount + n) : w * n / wordCount + 1 < n := by
  have split := Nat.div_add_mod (w * n) wordCount
  have below := product_lt bound positive
  have product : w * n ≤ (wordCount - 1) * n := Nat.mul_le_mul_right n (Nat.le_sub_one_of_lt bound)
  simp only [wordCount] at *
  omega

/-- One of the first `n` natural numbers. -/
def below (n : Nat) (positive : 0 < n) : Draw (Fin n) := do
  let first ← word
  let product := first.toNat * n
  if undecided : wordCount < product % wordCount + n then
    let second ← word
    if wordCount ≤ product % wordCount + second.toNat * n / wordCount then
      return ⟨product / wordCount + 1, carry_lt first.toNat_lt positive undecided⟩
  return ⟨product / wordCount, product_lt first.toNat_lt positive⟩

/-- A fair coin.  The first of its two words does not matter. -/
def coin : Draw Bool := do
  let _ ← word
  return (← word) < 0x80000000

end Draw

end EquationPuzzle
