import Schematic.Decimal.Shortest

/-!
# Decimal style

How a decimal is written out: with a point among its digits where its scale is
moderate, and with an exponent otherwise. Where the switch lies is data.
-/

namespace Schematic

namespace Decimal

/-- The range of scales written without an exponent: a number in
`[10 ^ (scale - 1), 10 ^ scale)` is written positionally iff
`least < scale ≤ greatest`. -/
structure Style where
  least : Int
  greatest : Int

namespace Style

/-- The digits with a point after the first `scale` of them; a whole number
keeps one zero behind the point, and a fraction one before it. -/
def positional (digits : List Char) (scale : Int) : List Char :=
  if scale ≤ 0 then
    '0' :: '.' :: List.replicate (-scale).toNat '0' ++ digits
  else if digits.length ≤ scale.toNat then
    digits ++ List.replicate (scale.toNat - digits.length) '0' ++ ['.', '0']
  else
    digits.take scale.toNat ++ '.' :: digits.drop scale.toNat

/-- An exponent with its sign, be it a plus or a minus. -/
def exponentText (exponent : Int) : List Char :=
  (if exponent < 0 then '-' else '+') :: (toString exponent.natAbs).toList

/-- One digit, a point if there are more, and the exponent. -/
def scientific (digits : List Char) (scale : Int) : List Char :=
  let mantissa := match digits with
    | first :: second :: rest => first :: '.' :: second :: rest
    | few => few
  mantissa ++ 'e' :: exponentText (scale - 1)

/-- A positive decimal in this style. -/
def decimal (style : Style) (d : Decimal) : List Char :=
  let digits := (toString d.digits).toList
  let scale := d.exponent + digits.length
  if style.least < scale ∧ scale ≤ style.greatest then positional digits scale
  else scientific digits scale

/-- A finite double as its shortest decimal; a zero keeps its sign. -/
def double (style : Style) (d : Double) : List Char :=
  let digits := if d.isZero then ['0', '.', '0'] else style.decimal d.shortest
  if d.negative then '-' :: digits else digits

end Style

end Decimal

end Schematic
