-- SUMMARY: Decimal numbers as text: positional or with an exponent.
import ObjectHost.Decimal.Shortest

/-!
# Number text

The digits of a number are settled by its value; a layout settles where the
point goes and when an exponent is written instead.
-/

namespace ObjectHost.Decimal

structure Layout where
  /-- The exponents of the leading digit between which a number is written out. -/
  leastPositional : Int
  greatestPositional : Int
  /-- Follows a whole number that is written out. -/
  wholeTail : String
  exponentMark : String
  nan : String
  infinity : String

def zeros (n : Nat) : String := String.ofList (List.replicate n '0')

namespace Layout

/-- The exponent of the leading digit. -/
def leading (digits : List Char) (exponent : Int) : Int := exponent + digits.length - 1

def positional (l : Layout) (digits : List Char) (exponent : Int) : String :=
  if 0 ≤ exponent then String.ofList digits ++ zeros exponent.toNat ++ l.wholeTail
  else
    let whole := digits.length - (-exponent).toNat
    if 0 < whole then String.ofList (digits.take whole) ++ "." ++ String.ofList (digits.drop whole)
    else "0." ++ zeros ((-exponent).toNat - digits.length) ++ String.ofList digits

def scientific (l : Layout) (digits : List Char) (exponent : Int) : String :=
  let tail := match digits.drop 1 with
    | [] => ""
    | rest => "." ++ String.ofList rest
  String.ofList (digits.take 1) ++ tail ++ l.exponentMark ++ toString (leading digits exponent)

def magnitude (l : Layout) (d : Number) : String :=
  let digits := Nat.toDigits 10 d.digits
  let e := leading digits d.exponent
  if l.leastPositional ≤ e ∧ e ≤ l.greatestPositional then l.positional digits d.exponent
  else l.scientific digits d.exponent

def sign (negative : Bool) : String := if negative then "-" else ""

def write (l : Layout) : Binary64 → String
  | .nan => l.nan
  | .infinity negative => sign negative ++ l.infinity
  | .zero negative => sign negative ++ "0" ++ l.wholeTail
  | .finite negative x => sign negative ++ l.magnitude x.shortest

end Layout

end ObjectHost.Decimal
