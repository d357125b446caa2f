import ClusterDynamics.Decimal.Basic
import ClusterDynamics.Decimal.Binary64

/-! The shortest decimal that reads back as a given float. The reals that round to the float form
an interval around it; for one digit, two digits and so on, the two neighbours of the float on the
decimal grid are tried, and the first grid with a neighbour in the interval wins. -/

namespace ClusterDynamics.Decimal

/-- The float `4·m` quarter units and the interval that rounds to it, all over one denominator. -/
structure ReadBack where
  lower : Nat
  value : Nat
  upper : Nat
  denominator : Nat
  /-- Whether the two ends round to the float as well. -/
  closed : Bool

/-- The reals that round to `m · 2 ^ e`: half a unit on either side, and a quarter below a power
of two that is not the smallest. The ends belong to it when `m` is even. -/
def ReadBack.of (m : Nat) (e : Int) : ReadBack :=
  let below := if m = Binary64.hiddenBit ∧ e ≠ Binary64.minExponent then 1 else 2
  let unit := Quotient.scaleByTwo 1 (e - 2)
  { lower := (4 * m - below) * unit.numerator
    value := 4 * m * unit.numerator
    upper := (4 * m + 2) * unit.numerator
    denominator := unit.denominator
    closed := decide (m % 2 = 0) }

/-- Whether `n · 10 ^ grid` reads back. -/
def ReadBack.holds (r : ReadBack) (n : Nat) (grid : Int) : Bool :=
  let c := Quotient.scaleByTen ⟨n, 1⟩ grid
  let x := c.numerator * r.denominator
  let lo := r.lower * c.denominator
  let hi := r.upper * c.denominator
  if r.closed then decide (lo ≤ x ∧ x ≤ hi) else decide (lo < x ∧ x < hi)

/-- The better of the two neighbours of the float on the grid `10 ^ grid`, if one reads back; of
two that do, the nearer, and the upper one if they are equally near. -/
def ReadBack.onGrid (r : ReadBack) (grid : Int) : Option Decimal :=
  let q := Quotient.scaleByTen ⟨r.value, r.denominator⟩ (-grid)
  let n := q.numerator / q.denominator
  let past := q.numerator % q.denominator
  match r.holds n grid, r.holds (n + 1) grid with
  | true, true => some ⟨if 2 * past < q.denominator then n else n + 1, grid⟩
  | true, false => some ⟨n, grid⟩
  | false, true => some ⟨n + 1, grid⟩
  | false, false => none

/-- The shortest decimal that reads back as `m · 2 ^ e`, for `m > 0`. Seventeen digits always
suffice; the exact value stands behind the search. -/
def shortest (m : Nat) (e : Int) : Decimal :=
  let r := ReadBack.of m e
  let q := Quotient.scaleByTwo m e
  let lead := q.leadingPlace
  match (List.range 17).findSome? fun n => r.onGrid (lead - (n : Nat)) with
  | some d => d
  | none =>
    match e with
    | .ofNat n => ⟨m * Nat.pow 2 n, 0⟩
    | .negSucc k => ⟨m * Nat.pow 5 (k + 1), e⟩

/-- The text of a float with the fewest digits that read back, every digit in its place:
`-1`, `0.25`, `1000000000000000000000`, `-0`, `NaN`, `inf`. -/
def shortestText (x : Float) : String :=
  match Binary64.ofFloat x with
  | .nan => "NaN"
  | .infinite negative => if negative then "-inf" else "inf"
  | .finite negative m e =>
    let text := if m = 0 then "0" else (shortest m e).plain
    if negative then "-" ++ text else text

end ClusterDynamics.Decimal
