-- SUMMARY: The fewest decimal digits that read back as a given binary floating-point value.

/-!
# Shortest decimals

A binary floating-point value stands for all reals that round to it: those
between the midpoints to its two neighbours, the midpoints included when its
mantissa is even. Its shortest decimal is the one in that interval on the
coarsest power-of-ten grid, and the nearest of those on that grid. All
comparisons are between natural numbers and so exact.
-/

namespace ObjectHost.Decimal

/-- A positive value `mantissa * 2 ^ exponent`. -/
structure Binary where
  mantissa : Nat
  exponent : Int
  /-- The neighbour below is half as far away as the neighbour above. -/
  narrow : Bool
deriving DecidableEq

/-- The value `digits * 10 ^ exponent`. -/
structure Number where
  digits : Nat
  exponent : Int
deriving DecidableEq

namespace Binary

/-- Quarters of the last binary place: the value, and the midpoints to its neighbours. -/
def middle (x : Binary) : Nat := 4 * x.mantissa
def lower (x : Binary) : Nat := if x.narrow then 4 * x.mantissa - 1 else 4 * x.mantissa - 2
def upper (x : Binary) : Nat := 4 * x.mantissa + 2

/-- On the grid of step `10 ^ scale`, `n` quarters of the last binary place are
    `n * numerator / denominator` steps. -/
def numerator (x : Binary) (scale : Int) : Nat := Nat.pow 2 (x.exponent - 2).toNat * Nat.pow 10 (-scale).toNat
def denominator (x : Binary) (scale : Int) : Nat := Nat.pow 2 (2 - x.exponent).toNat * Nat.pow 10 scale.toNat

/-- Does `steps * 10 ^ scale` round to `x`? -/
def readsBack (x : Binary) (scale : Int) (steps : Nat) : Bool :=
  let n := x.numerator scale
  let d := steps * x.denominator scale
  if x.mantissa % 2 = 0 then decide (x.lower * n ≤ d ∧ d ≤ x.upper * n)
  else decide (x.lower * n < d ∧ d < x.upper * n)

/-- The point of the grid nearest to `x` among those that round to it, the upper one of two equally near. -/
def onGrid? (x : Binary) (scale : Int) : Option Nat :=
  let here := x.middle * x.numerator scale
  let below := here / x.denominator scale
  match x.readsBack scale below, x.readsBack scale (below + 1) with
  | true, true =>
    some (if 2 * here < (2 * below + 1) * x.denominator scale then below else below + 1)
  | true, false => some below
  | false, true => some (below + 1)
  | false, false => none

/-- A grid at least as coarse as the leading digit of `x`. -/
def coarsest (x : Binary) : Int := (x.exponent + x.mantissa.log2 + 1) * 30103 / 100000 + 1

/-- All digits of `x`. -/
def exact (x : Binary) : Number :=
  ⟨x.mantissa * Nat.pow 2 x.exponent.toNat * Nat.pow 5 (-x.exponent).toNat, min x.exponent 0⟩

/-- Seventeen digits always read back, and the search starts at most three grids above the leading one. -/
def shortest (x : Binary) : Number :=
  let found := (List.range 24).findSome? fun (finer : Nat) =>
    let scale := x.coarsest - finer
    (x.onGrid? scale).map fun digits => ⟨digits, scale⟩
  found.getD x.exact

end Binary

/-! ## The 64-bit format -/

inductive Binary64 where
  | nan
  | infinity (negative : Bool)
  | zero (negative : Bool)
  | finite (negative : Bool) (magnitude : Binary)
deriving DecidableEq

def Binary64.ofBits (bits : UInt64) : Binary64 :=
  let negative := decide (bits >>> 63 = 1)
  let biased := ((bits >>> 52) &&& 0x7FF).toNat
  let fraction := (bits &&& 0xFFFFFFFFFFFFF).toNat
  if biased = 0x7FF then
    if fraction = 0 then .infinity negative else .nan
  else if biased = 0 then
    if fraction = 0 then .zero negative else .finite negative ⟨fraction, -1074, false⟩
  else
    .finite negative ⟨0x10000000000000 + fraction, (biased : Int) - 1075, decide (fraction = 0 ∧ 1 < biased)⟩

end ObjectHost.Decimal
