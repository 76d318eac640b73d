/-!
# Binary floating point numbers

A `Double` is the 64 bits of an IEEE 754 double; everything here is computed on
natural numbers, so that nothing depends on a processor's arithmetic. The two
directions between decimals and doubles are `Double.nearest?`, the double next
to `m * 10 ^ e`, and `Double.magnitude`, the exact value `m * 2 ^ q` of one.
-/

namespace Schematic

/-- The bits of a double: sign, eleven bits of exponent, fifty-two of mantissa. -/
structure Double where
  bits : UInt64
  deriving DecidableEq, Repr, Inhabited

namespace Double

/-- The place of the sign among the bits. -/
def signBit : Nat := 1 <<< 63

/-- The number of mantissas for each exponent; the bits of the exponent start here. -/
def mantissas : Nat := 1 <<< 52

/-- The bit pattern of positive infinity, the first one that is no finite magnitude. -/
def infinityBits : Nat := 2047 * mantissas

/-- Whether the sign bit is set. -/
def negative (d : Double) : Bool :=
  signBit ≤ d.bits.toNat

/-- The bits without the sign. -/
def unsignedBits (d : Double) : Nat :=
  d.bits.toNat % signBit

/-- Zero of either sign. -/
def isZero (d : Double) : Bool :=
  d.unsignedBits == 0

/-- Equality of finite numbers: the two zeros are equal, all others are equal
only to themselves. -/
def same (a b : Double) : Bool :=
  a.bits == b.bits || (a.isZero && b.isZero)

theorem same_refl (a : Double) : a.same a = true := by
  simp [same]

/-- A finite magnitude as `m * 2 ^ q`; below `mantissas` only for `q = -1074`. -/
def magnitude (d : Double) : Nat × Int :=
  let exponent : Nat := d.unsignedBits / mantissas
  let mantissa : Nat := d.unsignedBits % mantissas
  if exponent = 0 then (mantissa, -1074) else (mantissas + mantissa, (exponent : Int) - 1075)

/-- The sign put before unsigned bits. -/
def signed (negative : Bool) (unsigned : Nat) : Double :=
  ⟨UInt64.ofNat (if negative then signBit + unsigned else unsigned)⟩

/-- The integer next to `num / den`, a half going to the even neighbour. -/
def roundHalfEven (num den : Nat) : Nat :=
  let floor := num / den
  let twice := 2 * (num % den)
  if twice < den then floor
  else if den < twice then floor + 1
  else if floor % 2 = 0 then floor else floor + 1

/-- `base ^ e` as a fraction. -/
def power (base : Nat) (e : Int) : Nat × Nat :=
  if 0 ≤ e then (base.pow e.toNat, 1) else (1, base.pow (-e).toNat)

/-- The greatest `l` with `2 ^ l ≤ num / den`, for positive `num` and `den`. -/
def floorLog2 (num den : Nat) : Int :=
  let l : Int := num.log2 - den.log2
  let (a, b) := power 2 l
  if den * a ≤ num * b then l else l - 1

/-- The unsigned bits of the double next to the positive `num / den`. Bits count
up with magnitude, so a mantissa that rounds up to `2 ^ 53` carries into the
exponent by itself, and a result from `infinityBits` on has overflowed. -/
def nearestUnsigned (num den : Nat) : Nat :=
  let q := max (floorLog2 num den - 52) (-1074)
  let (a, b) := power 2 q
  (q + 1074).toNat * mantissas + roundHalfEven (num * b) (den * a)

/-- The double next to `m * 10 ^ e` with the given sign, a half going to the
even mantissa. There is none beyond the largest finite double; what is below
half of the smallest becomes zero. -/
def nearest? (negative : Bool) (m : Nat) (e : Int) : Option Double :=
  if m = 0 then some (signed negative 0)
  else if 310 < e then none
  else if m.log2 + 1 + 3 * e < -1080 then some (signed negative 0)
  else
    let (a, b) := power 10 e
    let bits := nearestUnsigned (m * a) b
    if bits < infinityBits then some (signed negative bits) else none

end Double

end Schematic
