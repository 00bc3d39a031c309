/-!
# The shortest text of a float

A finite float is `mantissa * 2 ^ power`.  Its text has the fewest digits that
no other float is nearer to, and of these the nearest.  The search tries one
digit, two digits and so on; on each decimal grid only the two neighbours of
the value can qualify.
-/

namespace ShellTree

namespace Decimal

structure Binary where
  negative : Bool
  mantissa : Nat
  power : Int

/-- Take a finite float apart; nothing for infinities and for what is no number. -/
def binary? (x : Float) : Option Binary :=
  let bits := x.toBits.toNat
  let negative := bits / Nat.pow 2 63 == 1
  let exponent : Nat := bits / Nat.pow 2 52 % 2048
  let fraction := bits % Nat.pow 2 52
  if exponent = 2047 then none
  else if exponent = 0 then some ⟨negative, fraction, -1074⟩
  else some ⟨negative, Nat.pow 2 52 + fraction, (exponent : Int) - 1075⟩

/-- The integer nearest to zero's side of a finite float. -/
def Binary.truncate (b : Binary) : Int :=
  let size : Nat :=
    if b.power < 0 then b.mantissa / Nat.pow 2 b.power.natAbs
    else b.mantissa * Nat.pow 2 b.power.toNat
  if b.negative then -(size : Int) else size

def Binary.integer? (b : Binary) : Option Int :=
  if b.power < 0 ∧ b.mantissa % Nat.pow 2 b.power.natAbs ≠ 0 then none
  else some b.truncate

structure Fraction where
  top : Nat
  bottom : Nat

/-- `m * 2 ^ p` as a fraction. -/
def fractionOf (m : Nat) (p : Int) : Fraction :=
  if p < 0 then ⟨m, Nat.pow 2 p.natAbs⟩ else ⟨m * Nat.pow 2 p.toNat, 1⟩

def Fraction.below (f g : Fraction) : Bool :=
  f.top * g.bottom < g.top * f.bottom

def Fraction.atMost (f g : Fraction) : Bool :=
  f.top * g.bottom ≤ g.top * f.bottom

/-- `n * 10 ^ e` as a fraction. -/
def gridPoint (n : Nat) (e : Int) : Fraction :=
  if e < 0 then ⟨n, Nat.pow 10 e.natAbs⟩ else ⟨n * Nat.pow 10 e.toNat, 1⟩

/-- The number of steps of size `10 ^ e` that fit below a fraction. -/
def stepsBelow (f : Fraction) (e : Int) : Nat :=
  if e < 0 then f.top * Nat.pow 10 e.natAbs / f.bottom
  else f.top / (f.bottom * Nat.pow 10 e.toNat)

def distance (f g : Fraction) : Fraction :=
  let a := f.top * g.bottom
  let b := g.top * f.bottom
  ⟨if a < b then b - a else a - b, f.bottom * g.bottom⟩

/-- The reals that round to a positive float: the ends belong to an even mantissa. -/
def rounds (mantissa : Nat) (power : Int) (point : Fraction) : Bool :=
  let atPowerOfTwo := mantissa = Nat.pow 2 52 ∧ -1074 < power
  let low :=
    if atPowerOfTwo then fractionOf (4 * mantissa - 1) (power - 2)
    else fractionOf (2 * mantissa - 1) (power - 1)
  let high := fractionOf (2 * mantissa + 1) (power - 1)
  if mantissa % 2 = 0 then low.atMost point && point.atMost high
  else low.below point && point.below high

/-- The position of the leading digit: the `e` with `10 ^ e ≤ f < 10 ^ (e + 1)`. -/
def leading (f : Fraction) : Int :=
  let estimate : Int :=
    ((Nat.toDigits 10 f.top).length : Int) - (Nat.toDigits 10 f.bottom).length
  if (gridPoint 1 (estimate + 1)).atMost f then estimate + 1
  else if (gridPoint 1 estimate).atMost f then estimate
  else estimate - 1

/-- The qualifying neighbour on the grid of step `10 ^ e`, if there is one. -/
def onGrid? (mantissa : Nat) (power : Int) (value : Fraction) (e : Int) : Option Nat :=
  let lower := stepsBelow value e
  let upper := lower + 1
  let lowerHit := rounds mantissa power (gridPoint lower e)
  let upperHit := rounds mantissa power (gridPoint upper e)
  match lowerHit, upperHit with
  | false, false => none
  | true, false => some lower
  | false, true => some upper
  | true, true =>
      let down := distance value (gridPoint lower e)
      let up := distance value (gridPoint upper e)
      if down.below up then some lower
      else if up.below down then some upper
      else if lower % 2 = 0 then some lower else some upper

def searchGrids (mantissa : Nat) (power : Int) (value : Fraction) :
    Nat → Int → Nat × Int
  | 0, e => (stepsBelow value e, e)
  | tries + 1, e =>
      match onGrid? mantissa power value e with
      | some n => (n, e)
      | none => searchGrids mantissa power value tries (e - 1)

/-- The digits of a positive float and the position of its decimal point after the first. -/
def shortest (mantissa : Nat) (power : Int) : List Char × Int :=
  let value := fractionOf mantissa power
  let (n, e) := searchGrids mantissa power value 17 (leading value)
  let digits := Nat.toDigits 10 n
  let kept := (digits.reverse.dropWhile (· = '0')).reverse
  (if kept.isEmpty then ['0'] else kept, e + (digits.length : Int) - 1)

/-- At least two digits of an exponent. -/
def exponentText (e : Int) : String :=
  let digits := toString e.natAbs
  (if e < 0 then "-" else "+") ++ (if digits.length < 2 then "0" ++ digits else digits)

/--
The text of a digit string whose first digit has weight `10 ^ e`: positional
from `10 ^ -4` up to `10 ^ 16`, with an exponent outside.
-/
def place (digits : List Char) (e : Int) : String :=
  if -4 ≤ e ∧ e < 16 then
    if e < 0 then
      "0." ++ String.ofList (List.replicate (e.natAbs - 1) '0' ++ digits)
    else
      let whole := digits.take (e.toNat + 1)
      let fraction := digits.drop (e.toNat + 1)
      String.ofList (whole ++ List.replicate (e.toNat + 1 - whole.length) '0') ++ "." ++
        (if fraction.isEmpty then "0" else String.ofList fraction)
  else
    match digits with
    | [] => ""
    | first :: rest =>
        String.ofList (first :: (if rest.isEmpty then [] else '.' :: rest)) ++ "e" ++
          exponentText e

def floatText (x : Float) : String :=
  match binary? x with
  | none =>
      if x.toBits.toNat % Nat.pow 2 52 ≠ 0 then "nan"
      else if x.toBits.toNat / Nat.pow 2 63 = 1 then "-inf" else "inf"
  | some b =>
      let body :=
        if b.mantissa = 0 then "0.0"
        else
          let (digits, e) := shortest b.mantissa b.power
          place digits e
      if b.negative then "-" ++ body else body

end Decimal

end ShellTree
