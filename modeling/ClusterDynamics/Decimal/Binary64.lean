/-! The exact value of a 64-bit binary floating-point number, read off its bits. -/

namespace ClusterDynamics

inductive Binary64 where
  | nan
  | infinite (negative : Bool)
  /-- The value `± significand · 2 ^ exponent`. -/
  | finite (negative : Bool) (significand : Nat) (exponent : Int)
  deriving DecidableEq, Repr

namespace Binary64

/-- The significand `2⁵²` of the smallest number with a given exponent, and the number of fractions
that the word has room for. -/
def hiddenBit : Nat := 4503599627370496

def minExponent : Int := -1074

/-- The meaning of a 64-bit word: from the right, 52 bits of fraction, 11 of exponent and the
sign. -/
def ofBits (bits : Nat) : Binary64 :=
  let fraction := bits % hiddenBit
  let biased := bits / hiddenBit % 2048
  let negative := bits / hiddenBit / 2048 % 2 == 1
  if biased = 2047 then
    if fraction = 0 then .infinite negative else .nan
  else if biased = 0 then .finite negative fraction minExponent
  else .finite negative (hiddenBit + fraction) (minExponent + (biased - 1 : Nat))

def ofFloat (x : Float) : Binary64 := ofBits x.toBits.toNat

end Binary64

/-- The number of decimal digits of a positive number. Its binary length leaves two candidates,
unless the number is very long. -/
def digitCount (n : Nat) : Nat :=
  let least := n.log2 * 30102 / 100000 + 1
  if n < Nat.pow 10 least then least
  else if n < Nat.pow 10 (least + 1) then least + 1
  else (Nat.toDigits 10 n).length

/-- The non-negative number `numerator / denominator`. -/
structure Quotient where
  numerator : Nat
  denominator : Nat
  deriving DecidableEq, Repr

namespace Quotient

/-- `n · 2 ^ e`. -/
def scaleByTwo (n : Nat) : Int → Quotient
  | .ofNat e => ⟨n * Nat.pow 2 e, 1⟩
  | .negSucc k => ⟨n, Nat.pow 2 (k + 1)⟩

/-- `q · 10 ^ e`. -/
def scaleByTen (q : Quotient) : Int → Quotient
  | .ofNat e => ⟨q.numerator * Nat.pow 10 e, q.denominator⟩
  | .negSucc k => ⟨q.numerator, q.denominator * Nat.pow 10 (k + 1)⟩

/-- The place of the leading decimal digit: `e` with `10 ^ e ≤ q < 10 ^ (e + 1)`, for `q > 0`. -/
def leadingPlace (q : Quotient) : Int :=
  if q.denominator ≤ q.numerator then
    (digitCount (q.numerator / q.denominator) - 1 : Nat)
  else
    let len := digitCount (q.denominator / q.numerator)
    if q.denominator ≤ q.numerator * Nat.pow 10 (len - 1) then -(len - 1 : Nat) else -(len : Nat)

/-- The nearest natural number; a half goes to the even neighbour. -/
def roundHalfEven (q : Quotient) : Nat :=
  let n := q.numerator / q.denominator
  let twice := 2 * (q.numerator % q.denominator)
  if twice < q.denominator ∨ (twice = q.denominator ∧ n % 2 = 0) then n else n + 1

end Quotient

end ClusterDynamics
