import Schematic.Decimal.Double

/-!
# The shortest decimal of a double

`Double.shortest` gives the decimal with the fewest digits that rounds to a
given double and, of those, the one next to it. The reals that round to
`m * 2 ^ q` form an interval; a grid of decimals of a given width meets it only
if one of the two grid points beside the double does, so both are tried for one
digit, two digits, and so on. Seventeen digits always suffice.
-/

namespace Schematic

/-- A positive decimal `digits * 10 ^ exponent`. -/
structure Decimal where
  digits : Nat
  exponent : Int
  deriving DecidableEq, Repr

namespace Decimal

/-- Moves trailing zeros of the digits into the exponent. The first argument
bounds how many. -/
def trim : Nat → Decimal → Decimal
  | 0, d => d
  | fuel + 1, d =>
    if d.digits ≠ 0 ∧ d.digits % 10 = 0 then trim fuel ⟨d.digits / 10, d.exponent + 1⟩ else d

end Decimal

namespace Double

/-- The reals that round to a double, in quarter units of its last place: the
lower end, the double itself, the upper end and whether the ends belong to it. -/
structure Interval where
  lower : Nat
  centre : Nat
  upper : Nat
  closed : Bool
  /-- The binary exponent of a quarter unit. -/
  exponent : Int

/-- The interval of a positive magnitude. Below a power of two the next double
is only half as far away. -/
def interval (m : Nat) (q : Int) : Interval where
  lower := if m = mantissas ∧ -1074 < q then 4 * m - 1 else 4 * m - 2
  centre := 4 * m
  upper := 4 * m + 2
  closed := m % 2 == 0
  exponent := q - 2

/-- The greatest `k` with `10 ^ k ≤ num / den`: the estimate from the binary
logarithm is off by at most one. -/
def floorLog10 (num den : Nat) : Int :=
  let estimate := floorLog2 num den * 30103 / 100000
  let reaches (k : Int) : Bool :=
    let (a, b) := power 10 k
    den * a ≤ num * b
  if reaches (estimate + 1) then estimate + 1
  else if reaches estimate then estimate
  else estimate - 1

/-- The grid point `c * 10 ^ k` beside the double that rounds to it and is next
to it, if one does. A tie goes to the even point. -/
def onGrid (i : Interval) (k : Int) : Option Decimal :=
  let (p, p') := power 2 i.exponent
  let (t, t') := power 10 k
  -- in units of the grid, a quarter unit of the double is `num / den`
  let num := p * t'
  let den := p' * t
  let below := i.centre * num / den
  let inside (c : Nat) : Bool :=
    if i.closed then i.lower * num ≤ c * den ∧ c * den ≤ i.upper * num
    else i.lower * num < c * den ∧ c * den < i.upper * num
  let twice := 2 * (i.centre * num - below * den)
  let first := twice < den ∨ (twice = den ∧ below % 2 = 0)
  let (near, far) := if first then (below, below + 1) else (below + 1, below)
  if 0 < near ∧ inside near then some ⟨near, k⟩
  else if 0 < far ∧ inside far then some ⟨far, k⟩
  else none

/-- The shortest decimal of a finite double other than zero, sign left out. -/
def shortest (d : Double) : Decimal :=
  let (m, q) := d.magnitude
  let i := interval m q
  let (p, p') := power 2 q
  let top := floorLog10 (m * p) p'
  let grids := (List.range 17).map fun (width : Nat) => top - (width : Int)
  match grids.findSome? (onGrid i) with
  | some decimal => decimal.trim 20
  | none => ⟨m * p / p', 0⟩

end Double

end Schematic
