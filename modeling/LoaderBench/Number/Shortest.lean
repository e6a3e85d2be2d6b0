/-!
# Shortest decimals

The shortest decimal that reads back as a given binary64 number. A finite number is `m · 2^q`; the
reals that round to it form an interval, which holds its ends exactly when `m` is even. On the grid of
decimals with `n` significant digits only the two neighbours of the number can be the nearest point of
the interval, so `n = 1, 2, …, 17` are tried in turn. Of two neighbours in the interval the nearer one
is taken, of two equally near ones the even one.
-/

namespace LoaderBench.Number

/-- The magnitude of a finite binary64 number: `mantissa · 2^exponent`. -/
structure Magnitude where
  mantissa : Nat
  exponent : Int
  deriving DecidableEq, Repr

def isNegative (x : Float) : Bool := x.toBits >>> 63 == 1

/-- The magnitude that the bits of a finite number stand for. -/
def magnitude (x : Float) : Magnitude :=
  let fraction := (x.toBits &&& 0xFFFFFFFFFFFFF).toNat
  let biased := (x.toBits >>> 52 &&& 0x7FF).toNat
  if biased = 0 then ⟨fraction, -1074⟩ else ⟨0x10000000000000 + fraction, (biased : Int) - 1075⟩

/-- A decimal: `digits · 10^exponent`. -/
structure Decimal where
  digits : Nat
  exponent : Int
  deriving DecidableEq, Repr

/-- Numerator and denominator of a power. -/
def powerRatio (base : Nat) (exponent : Int) : Nat × Nat :=
  if 0 ≤ exponent then (Nat.pow base exponent.toNat, 1) else (1, Nat.pow base (-exponent).toNat)

/-- The decimal exponent of the leading digit. Scaled up by `10^350`, every positive binary64 number
has a whole part. -/
def leadingExponent (v : Magnitude) : Int :=
  let (num, den) := powerRatio 2 v.exponent
  ((Nat.toDigits 10 (v.mantissa * num * Nat.pow 10 350 / den)).length : Int) - 351

/-- The interval of reals that round to a number, and the number itself, in quarters of `2^q`. Below
the least mantissa of a binade the neighbour is only half as far. -/
structure Rounding where
  low : Nat
  value : Nat
  high : Nat
  closed : Bool

/-- The rounding interval of a magnitude. -/
def Rounding.of (v : Magnitude) : Rounding :=
  let below := if v.mantissa = 0x10000000000000 ∧ v.exponent ≠ -1074 then 1 else 2
  ⟨4 * v.mantissa - below, 4 * v.mantissa, 4 * v.mantissa + 2, v.mantissa % 2 == 0⟩

/-- The grid point with `digits` digits that is nearest to the number, if one rounds to it. -/
def onGrid (v : Magnitude) (digits : Nat) : Option Decimal :=
  let r := Rounding.of v
  let grid := leadingExponent v - digits + 1
  let (gridNum, gridDen) := powerRatio 10 grid
  let (unitNum, unitDen) := powerRatio 2 (v.exponent - 2)
  let step := gridNum * unitDen
  let unit := unitNum * gridDen
  let inside (c : Nat) : Bool :=
    if r.closed then r.low * unit ≤ c * step ∧ c * step ≤ r.high * unit
    else r.low * unit < c * step ∧ c * step < r.high * unit
  let c := r.value * unit / step
  let twice := 2 * (r.value * unit)
  let middle := (2 * c + 1) * step
  match inside c, inside (c + 1) with
  | false, false => none
  | true, false => some ⟨c, grid⟩
  | false, true => some ⟨c + 1, grid⟩
  | true, true =>
    if twice < middle ∨ twice = middle ∧ c % 2 = 0 then some ⟨c, grid⟩ else some ⟨c + 1, grid⟩

/-- The shortest decimal that reads back as a positive number. -/
def shortest (v : Magnitude) : Decimal :=
  ((List.range 17).findSome? fun n => onGrid v (n + 1)).getD ⟨0, 0⟩

/-! ### How reals are written -/

/-- The least decimal exponent of a number that is written without an exponent. -/
def plainFrom : Int := -5

/-- The least decimal exponent above those written without an exponent. -/
def plainBelow : Int := 16

/-- A number without exponent: its digits, whose first has the decimal exponent `lead`. -/
def plainText (ds : List Char) (lead : Int) : List Char :=
  if lead < 0 then ['0', '.'] ++ List.replicate (-lead - 1).toNat '0' ++ ds
  else if ds.length ≤ lead.toNat + 1 then
    ds ++ List.replicate (lead.toNat + 1 - ds.length) '0' ++ ['.', '0']
  else ds.take (lead.toNat + 1) ++ '.' :: ds.drop (lead.toNat + 1)

/-- A number with exponent: a point follows the first digit if there are more, and the exponent
always has its sign. -/
def exponentText (ds : List Char) (lead : Int) : List Char :=
  ds.take 1 ++ (if ds.length ≤ 1 then [] else '.' :: ds.drop 1) ++
    ['e', if lead < 0 then '-' else '+'] ++ Nat.toDigits 10 lead.natAbs

def positiveText (v : Magnitude) : List Char :=
  let d := shortest v
  let all := Nat.toDigits 10 d.digits
  let lead := d.exponent + all.length - 1
  let ds := (all.reverse.dropWhile (· = '0')).reverse
  if plainFrom ≤ lead ∧ lead < plainBelow then plainText ds lead else exponentText ds lead

/-- The text of a finite number. A zero keeps its sign. -/
def realText (x : Float) : String :=
  let v := magnitude x
  let text := if v.mantissa = 0 then ['0', '.', '0'] else positiveText v
  String.ofList (if isNegative x then '-' :: text else text)

end LoaderBench.Number
