/-! Search among positions for the one where a property is lost. -/

namespace ClusterDynamics

/-- `turningPoint`, in at most `fuel` looks. -/
def turningPointWithin (p : Nat → Bool) : Nat → Nat → Nat → Nat
  | 0, first, _ => first
  | fuel + 1, first, count =>
    if count = 0 then first
    else
      let half := count / 2
      if p (first + half) then turningPointWithin p fuel (first + half + 1) (count - half - 1)
      else turningPointWithin p fuel first half

/-- The first of `count` positions from `first` on at which `p` fails, or the position behind them.
It is meant for a property that never holds again once it failed; each look halves the positions
that are left. -/
def turningPoint (p : Nat → Bool) (first count : Nat) : Nat :=
  turningPointWithin p (count.log2 + 1) first count

end ClusterDynamics
