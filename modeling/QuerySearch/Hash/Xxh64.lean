/-! The 64-bit xxHash of a list of bytes.  Thirty-two bytes at a time go through four lanes; what is
left over is folded in by eights, by a four and byte by byte, and the result is mixed. -/

namespace QuerySearch.Xxh64

def prime1 : UInt64 := 0x9E3779B185EBCA87
def prime2 : UInt64 := 0xC2B2AE3D27D4EB4F
def prime3 : UInt64 := 0x165667B19E3779F9
def prime4 : UInt64 := 0x85EBCA77C2B2AE63
def prime5 : UInt64 := 0x27D4EB2F165667C5

def rotateLeft (x : UInt64) (n : UInt64) : UInt64 := (x <<< n) ||| (x >>> (64 - n))

def littleEndian (bs : List UInt8) : UInt64 :=
  bs.foldr (fun b acc => (acc <<< 8) ||| b.toUInt64) 0

def round (acc input : UInt64) : UInt64 := rotateLeft (acc + input * prime2) 31 * prime1

def mergeRound (acc lane : UInt64) : UInt64 := (acc ^^^ round 0 lane) * prime1 + prime4

structure Lanes where
  a : UInt64
  b : UInt64
  c : UInt64
  d : UInt64

def Lanes.start (seed : UInt64) : Lanes :=
  ⟨seed + prime1 + prime2, seed + prime2, seed, seed - prime1⟩

def Lanes.take (l : Lanes) (bs : List UInt8) : Lanes :=
  let rest := bs.drop 8
  let rest' := rest.drop 8
  ⟨round l.a (littleEndian (bs.take 8)), round l.b (littleEndian (rest.take 8)),
    round l.c (littleEndian (rest'.take 8)), round l.d (littleEndian ((rest'.drop 8).take 8))⟩

def Lanes.takeAll (l : Lanes) : (stripes : Nat) → List UInt8 → Lanes × List UInt8
  | 0, bs => (l, bs)
  | n + 1, bs => (l.take bs).takeAll n (bs.drop 32)

def Lanes.converge (l : Lanes) : UInt64 :=
  let h := rotateLeft l.a 1 + rotateLeft l.b 7 + rotateLeft l.c 12 + rotateLeft l.d 18
  mergeRound (mergeRound (mergeRound (mergeRound h l.a) l.b) l.c) l.d

def foldEights (h : UInt64) : (count : Nat) → List UInt8 → UInt64 × List UInt8
  | 0, bs => (h, bs)
  | n + 1, bs =>
    foldEights (rotateLeft (h ^^^ round 0 (littleEndian (bs.take 8))) 27 * prime1 + prime4) n (bs.drop 8)

def foldFour (h : UInt64) (bs : List UInt8) : UInt64 × List UInt8 :=
  if 4 ≤ bs.length then
    (rotateLeft (h ^^^ (littleEndian (bs.take 4) * prime1)) 23 * prime2 + prime3, bs.drop 4)
  else (h, bs)

def foldByte (h : UInt64) (b : UInt8) : UInt64 :=
  rotateLeft (h ^^^ (b.toUInt64 * prime5)) 11 * prime1

def avalanche (h : UInt64) : UInt64 :=
  let h := (h ^^^ (h >>> 33)) * prime2
  let h := (h ^^^ (h >>> 29)) * prime3
  h ^^^ (h >>> 32)

def hash (seed : UInt64) (bs : List UInt8) : UInt64 :=
  let length := bs.length
  let (h, rest) :=
    if 32 ≤ length then
      let (lanes, rest) := (Lanes.start seed).takeAll (length / 32) bs
      (lanes.converge, rest)
    else (seed + prime5, bs)
  let (h, rest) := foldEights (h + length.toUInt64) (length % 32 / 8) rest
  let (h, rest) := foldFour h rest
  avalanche (rest.foldl foldByte h)

end QuerySearch.Xxh64
