/-! Double-precision numbers by their bit patterns.  Two patterns are the same number here only if
all their bits agree, so the payload of a NaN and the sign of a zero count.  A rational is read to
the nearest representable number, halves to the even neighbour. -/

namespace QuerySearch

structure Binary64 where
  bits : UInt64
  deriving DecidableEq, Inhabited

namespace Binary64

def isNegative (x : Binary64) : Bool := x.bits.toNat.testBit 63

def exponentField (x : Binary64) : Nat := x.bits.toNat >>> 52 % 0x800

def fractionField (x : Binary64) : Nat := x.bits.toNat % 0x10000000000000

def isFinite (x : Binary64) : Bool := x.exponentField != 2047

def isNaN (x : Binary64) : Bool := x.exponentField == 2047 && x.fractionField != 0

def isZero (x : Binary64) : Bool := x.exponentField == 0 && x.fractionField == 0

/-- The magnitude of a finite number is `x.mantissa * 2 ^ x.scale`. -/
def mantissa (x : Binary64) : Nat :=
  if x.exponentField = 0 then x.fractionField else 0x10000000000000 + x.fractionField

def scale (x : Binary64) : Int :=
  if x.exponentField = 0 then -1074 else (x.exponentField : Int) - 1075

def divNearestEven (n d : Nat) : Nat :=
  let q := n / d
  let r := n % d
  if 2 * r < d then q
  else if d < 2 * r then q + 1
  else if q % 2 = 0 then q else q + 1

def scaled (n d : Nat) (e : Int) : Nat × Nat :=
  (n <<< (-e).toNat, d <<< e.toNat)

def lastPlace (n d : Nat) : Int :=
  let e := (n.log2 : Int) - d.log2 - 52
  let (a, b) := scaled n d e
  max (-1074) (if a < b <<< 52 then e - 1 else e)

def magnitudeBits (n d : Nat) : Nat :=
  if n = 0 then 0
  else
    let e := lastPlace n d
    let (a, b) := scaled n d e
    min ((e + 1074).toNat <<< 52 + divNearestEven a b) (0x7ff <<< 52)

def ofRatio (negative : Bool) (n d : Nat) : Binary64 :=
  ⟨((if negative then 0x8000000000000000 else 0) + magnitudeBits n d).toUInt64⟩

end Binary64

end QuerySearch
