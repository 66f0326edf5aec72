import QuerySearch.Number.Binary64

/-! Decimal text of double-precision numbers: the shortest digits that read back, laid out with or
without an exponent, and the value of a written decimal. -/

namespace QuerySearch

structure Decimal where
  digits : Nat
  exponent : Int
  deriving DecidableEq

namespace Decimal

def digitValue (c : Char) : Nat := c.toNat - '0'.toNat

def readDigits (ds : List Char) : Nat := ds.foldl (fun n c => 10 * n + digitValue c) 0

def digitCount (n : Nat) : Nat := (Nat.toDigits 10 n).length

/-- The `k` with `10 ^ (k - 1) ≤ n / d < 10 ^ k`, for a positive ratio. -/
def magnitude (n d : Nat) : Int :=
  if d ≤ n then digitCount (n / d) else 1 - (digitCount ((d - 1) / n) : Int)

def withZeros (n k : Nat) : Nat := n * Nat.pow 10 k

def atMost (c : Nat) (j : Int) (n d : Nat) : Bool :=
  withZeros c j.toNat * d ≤ withZeros n (-j).toNat

def atLeast (c : Nat) (j : Int) (n d : Nat) : Bool :=
  withZeros n (-j).toNat ≤ withZeros c j.toNat * d

def isBelow (c : Nat) (j : Int) (n d : Nat) : Bool := !atLeast c j n d

def isAbove (c : Nat) (j : Int) (n d : Nat) : Bool := !atMost c j n d

/-- The reals that round to a number: the fractions `lower / unit` to `upper / unit` around
`value / unit`, ends included if the mantissa is even. -/
structure Interval where
  lower : Nat
  value : Nat
  upper : Nat
  unit : Nat
  closed : Bool

/-- A quarter of the last place is the unit, since below a power of two the gap is half as wide. -/
def Interval.around (x : Binary64) : Interval :=
  let m := x.mantissa
  let below := if x.fractionField = 0 && 1 < x.exponentField then 1 else 2
  { lower := (4 * m - below) <<< x.scale.toNat
    value := (4 * m) <<< x.scale.toNat
    upper := (4 * m + 2) <<< x.scale.toNat
    unit := 4 <<< (-x.scale).toNat
    closed := m % 2 = 0 }

def Interval.holds (i : Interval) (c : Nat) (j : Int) : Bool :=
  if i.closed then atLeast c j i.lower i.unit && atMost c j i.upper i.unit
  else isAbove c j i.lower i.unit && isBelow c j i.upper i.unit

def Interval.nearest? (i : Interval) (j : Int) : Option Nat :=
  let floor := withZeros i.value (-j).toNat / withZeros i.unit j.toNat
  let below := i.holds floor j
  let above := i.holds (floor + 1) j
  if below && above then
    -- `floor` is nearer if twice the value lies below the sum of the two
    if isAbove (2 * floor + 1) j (2 * i.value) i.unit then some floor else some (floor + 1)
  else if below then some floor
  else if above then some (floor + 1)
  else none

def Interval.firstGrid (i : Interval) (k : Int) : (count : Nat) → (used : Nat) → Decimal
  | 0, used =>
    let j := k - used
    ⟨withZeros i.value (-j).toNat / withZeros i.unit j.toNat, j⟩
  | n + 1, used =>
    match i.nearest? (k - (used + 1)) with
    | some c => ⟨c, k - (used + 1)⟩
    | none => i.firstGrid k n (used + 1)

/-- The fewest digits that read back as a positive finite number, nearest to it among those. -/
def shortest (x : Binary64) : Decimal :=
  let i := Interval.around x
  i.firstGrid (magnitude i.value i.unit) 17 0

def zeros (n : Nat) : String := String.ofList (List.replicate n '0')

def placed (d : Decimal) : List Char × Int :=
  let ds := Nat.toDigits 10 d.digits
  ((ds.reverse.dropWhile (· == '0')).reverse, ds.length + d.exponent)

structure Layout where
  wholePoint : Bool
  usesExponent : Int → Bool

def Layout.plain : Layout := ⟨false, fun _ => false⟩

/-- A point in a whole number, and an exponent below `10 ^ (-4)` and from `10 ^ 16` on. -/
def Layout.scientific : Layout := ⟨true, fun place => decide (place ≤ -4 ∨ 17 ≤ place)⟩

def layOutPositional (wholePoint : Bool) (ds : List Char) (place : Int) : String :=
  if place ≤ 0 then "0." ++ zeros (-place).toNat ++ String.ofList ds
  else if ds.length ≤ place.toNat then
    String.ofList ds ++ zeros (place.toNat - ds.length) ++ (if wholePoint then ".0" else "")
  else String.ofList (ds.take place.toNat) ++ "." ++ String.ofList (ds.drop place.toNat)

def layOutExponent (ds : List Char) (place : Int) : String :=
  let fraction := if ds.length ≤ 1 then "" else "." ++ String.ofList (ds.drop 1)
  String.ofList (ds.take 1) ++ fraction ++ "e" ++ toString (place - 1)

def layOut (layout : Layout) (d : Decimal) : String :=
  let (ds, place) := d.placed
  if layout.usesExponent place then layOutExponent ds place
  else layOutPositional layout.wholePoint ds place

end Decimal

namespace Binary64

def text (layout : Decimal.Layout) (x : Binary64) : String :=
  (if x.isNegative then "-" else "") ++
    if x.isZero then (if layout.wholePoint then "0.0" else "0")
    else (Decimal.shortest x).layOut layout

def ofDecimal (negative : Bool) (whole fraction : List Char) : Binary64 :=
  ofRatio negative (Decimal.readDigits (whole ++ fraction)) (Decimal.withZeros 1 fraction.length)

end Binary64

end QuerySearch
