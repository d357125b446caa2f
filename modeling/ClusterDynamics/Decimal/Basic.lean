/-! Decimal numbers `digits · 10 ^ exponent` and the two ways they are written: with an exponent,
or positionally with every zero spelled out. -/

namespace ClusterDynamics

/-- The number `digits · 10 ^ exponent`. -/
structure Decimal where
  digits : Nat
  exponent : Int
  deriving DecidableEq, Repr

namespace Decimal

/-- Move trailing zeros of `digits` into the exponent, at most `fuel` of them. -/
def stripUpTo : Nat → Nat → Int → Decimal
  | 0, n, e => ⟨n, e⟩
  | fuel + 1, n, e => if n ≠ 0 ∧ n % 10 = 0 then stripUpTo fuel (n / 10) (e + 1) else ⟨n, e⟩

/-- The same number with no trailing zero in `digits`; a number has fewer digits than its own
binary length plus one, so the bound is never reached. -/
def strip (d : Decimal) : Decimal := stripUpTo (d.digits.log2 + 1) d.digits d.exponent

/-- The decimal digits of a natural number, leading digit first. -/
def digitChars (n : Nat) : List Char := Nat.toDigits 10 n

/-- One digit, the others behind a point, and the power of ten: `3.1652e-1`, `1e16`. -/
def scientific (d : Decimal) : String :=
  let s := d.strip
  let cs := digitChars s.digits
  let lead := s.exponent + (cs.length - 1 : Nat)
  let frac := match cs.tail with
    | [] => []
    | rest => '.' :: rest
  String.ofList (cs.take 1 ++ frac) ++ "e" ++ toString lead

/-- Every digit in its place and no exponent: `0.0000001`, `120`, `0.25`. -/
def plain (d : Decimal) : String :=
  let s := d.strip
  let cs := digitChars s.digits
  match s.exponent with
  | .ofNat e => String.ofList (cs ++ List.replicate e '0')
  | .negSucc k =>
    let places := k + 1
    if cs.length ≤ places then
      String.ofList ('0' :: '.' :: List.replicate (places - cs.length) '0' ++ cs)
    else
      String.ofList (cs.take (cs.length - places) ++ '.' :: cs.drop (cs.length - places))

end Decimal

end ClusterDynamics
