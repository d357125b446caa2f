import ClusterDynamics.Decimal.Basic
import ClusterDynamics.Decimal.Binary64

/-! A float rounded to a fixed number of significant decimal digits. The rounding is exact: it is
done on the binary value itself, half to even, and trailing zeros are dropped afterwards. -/

namespace ClusterDynamics.Decimal

/-- The positive number `q` rounded to `places` significant digits. -/
def ofQuotientRounded (places : Nat) (q : Quotient) : Decimal :=
  let grid := q.leadingPlace - (places - 1 : Nat)
  ⟨(q.scaleByTen (-grid)).roundHalfEven, grid⟩

/-- The text of a float with `places` significant digits: `1e0`, `-2.5e-3`, `NaN`, `inf`.
Both zeros are `0e0`. -/
def roundedText (places : Nat) (x : Float) : String :=
  match Binary64.ofFloat x with
  | .nan => "NaN"
  | .infinite negative => if negative then "-inf" else "inf"
  | .finite negative m e =>
    if m = 0 then "0e0"
    else
      let text := (ofQuotientRounded places (Quotient.scaleByTwo m e)).scientific
      if negative then "-" ++ text else text

end ClusterDynamics.Decimal
