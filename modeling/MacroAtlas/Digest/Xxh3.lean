import MacroAtlas.Bytes

/-!
# XXH3 with 128 bits

The hash of XXH3 in its 128-bit form, with seed zero and the default secret. Inputs are treated in
five classes by length; the longest are cut into stripes of 64 bytes that eight lanes accumulate.
All arithmetic is on 64-bit words and wraps.
-/

namespace MacroAtlas.Xxh3

/-- The secret, 192 bytes long. -/
def secret : Array UInt8 := #[
  0xb8, 0xfe, 0x6c, 0x39, 0x23, 0xa4, 0x4b, 0xbe, 0x7c, 0x01, 0x81, 0x2c, 0xf7, 0x21, 0xad, 0x1c,
  0xde, 0xd4, 0x6d, 0xe9, 0x83, 0x90, 0x97, 0xdb, 0x72, 0x40, 0xa4, 0xa4, 0xb7, 0xb3, 0x67, 0x1f,
  0xcb, 0x79, 0xe6, 0x4e, 0xcc, 0xc0, 0xe5, 0x78, 0x82, 0x5a, 0xd0, 0x7d, 0xcc, 0xff, 0x72, 0x21,
  0xb8, 0x08, 0x46, 0x74, 0xf7, 0x43, 0x24, 0x8e, 0xe0, 0x35, 0x90, 0xe6, 0x81, 0x3a, 0x26, 0x4c,
  0x3c, 0x28, 0x52, 0xbb, 0x91, 0xc3, 0x00, 0xcb, 0x88, 0xd0, 0x65, 0x8b, 0x1b, 0x53, 0x2e, 0xa3,
  0x71, 0x64, 0x48, 0x97, 0xa2, 0x0d, 0xf9, 0x4e, 0x38, 0x19, 0xef, 0x46, 0xa9, 0xde, 0xac, 0xd8,
  0xa8, 0xfa, 0x76, 0x3f, 0xe3, 0x9c, 0x34, 0x3f, 0xf9, 0xdc, 0xbb, 0xc7, 0xc7, 0x0b, 0x4f, 0x1d,
  0x8a, 0x51, 0xe0, 0x4b, 0xcd, 0xb4, 0x59, 0x31, 0xc8, 0x9f, 0x7e, 0xc9, 0xd9, 0x78, 0x73, 0x64,
  0xea, 0xc5, 0xac, 0x83, 0x34, 0xd3, 0xeb, 0xc3, 0xc5, 0x81, 0xa0, 0xff, 0xfa, 0x13, 0x63, 0xeb,
  0x17, 0x0d, 0xdd, 0x51, 0xb7, 0xf0, 0xda, 0x49, 0xd3, 0x16, 0x55, 0x26, 0x29, 0xd4, 0x68, 0x9e,
  0x2b, 0x16, 0xbe, 0x58, 0x7d, 0x47, 0xa1, 0xfc, 0x8f, 0xf8, 0xb8, 0xd1, 0x7a, 0xd0, 0x31, 0xce,
  0x45, 0xcb, 0x3a, 0x8f, 0x95, 0x16, 0x04, 0x28, 0xaf, 0xd7, 0xfb, 0xca, 0xbb, 0x4b, 0x40, 0x7e]

/-! ### Constants -/

/-- The first 32-bit prime. -/
def prime32a : UInt64 := 0x9E3779B1
/-- The second 32-bit prime. -/
def prime32b : UInt64 := 0x85EBCA77
/-- The third 32-bit prime. -/
def prime32c : UInt64 := 0xC2B2AE3D
/-- The first 64-bit prime. -/
def prime64a : UInt64 := 0x9E3779B185EBCA87
/-- The second 64-bit prime. -/
def prime64b : UInt64 := 0xC2B2AE3D27D4EB4F
/-- The third 64-bit prime. -/
def prime64c : UInt64 := 0x165667B19E3779F9
/-- The fourth 64-bit prime. -/
def prime64d : UInt64 := 0x85EBCA77C2B2AE63
/-- The fifth 64-bit prime. -/
def prime64e : UInt64 := 0x27D4EB2F165667C5
/-- The multiplier of the short avalanche. -/
def mixer1 : UInt64 := 0x165667919E3779F9
/-- The multiplier of inputs of four to eight bytes. -/
def mixer2 : UInt64 := 0x9FB21C651E98DF25

/-! ### Words -/

/-- The 64-bit word of eight bytes at an offset, least significant first. -/
def word64 (a : Array UInt8) (offset : Nat) : UInt64 :=
  (List.range 8).foldr (fun i acc => (acc <<< 8) ||| (a.getD (offset + i) 0).toUInt64) 0

/-- The 32-bit word of four bytes at an offset, least significant first. -/
def word32 (a : Array UInt8) (offset : Nat) : UInt64 :=
  (List.range 4).foldr (fun i acc => (acc <<< 8) ||| (a.getD (offset + i) 0).toUInt64) 0

/-- The lower half of a word. -/
def lowHalf (w : UInt64) : UInt64 := w &&& 0xFFFFFFFF

/-- The word with the order of its bytes reversed. -/
def reverseBytes (w : UInt64) : UInt64 :=
  (List.range 8).foldl (fun acc i => (acc <<< 8) ||| ((w >>> (8 * i).toUInt64) &&& 0xFF)) 0

/-- The word combined with itself shifted right. -/
def foldRight (w : UInt64) (shift : UInt64) : UInt64 := w ^^^ (w >>> shift)

/-- A value of 128 bits. -/
structure Wide where
  /-- The lower 64 bits. -/
  low : UInt64
  /-- The upper 64 bits. -/
  high : UInt64
  deriving DecidableEq, Repr

/-- The full product of two words. -/
def product (a b : UInt64) : Wide :=
  let p := a.toNat * b.toNat
  ⟨p.toUInt64, (p / UInt64.size).toUInt64⟩

/-- The two halves of the full product, combined. -/
def foldProduct (a b : UInt64) : UInt64 :=
  let p := product a b
  p.low ^^^ p.high

/-- Spreads each bit of a word over all of it, in three steps. -/
def avalanche64 (h : UInt64) : UInt64 :=
  foldRight (foldRight (foldRight h 33 * prime64b) 29 * prime64c) 32

/-- Spreads each bit of a word over all of it, in two steps. -/
def avalanche (h : UInt64) : UInt64 := foldRight (foldRight h 37 * mixer1) 32

/-! ### Inputs of up to 16 bytes -/

/-- The hash of no bytes. -/
def hashEmpty : Wide :=
  ⟨avalanche64 (word64 secret 64 ^^^ word64 secret 72),
    avalanche64 (word64 secret 80 ^^^ word64 secret 88)⟩

/-- The hash of one to three bytes. -/
def hashUpTo3 (a : Array UInt8) : Wide :=
  let at_ (i : Nat) : UInt64 := (a.getD i 0).toUInt64
  let n := a.size
  let low := (at_ 0 <<< 16) ||| (at_ (n / 2) <<< 24) ||| at_ (n - 1) ||| (n.toUInt64 <<< 8)
  let swapped := reverseBytes low >>> 32
  let high := lowHalf (swapped <<< 13) ||| (swapped >>> 19)
  ⟨avalanche64 (low ^^^ word32 secret 0 ^^^ word32 secret 4),
    avalanche64 (high ^^^ word32 secret 8 ^^^ word32 secret 12)⟩

/-- The hash of four to eight bytes. -/
def hashUpTo8 (a : Array UInt8) : Wide :=
  let n := a.size
  let joined := word32 a 0 + (word32 a (n - 4) <<< 32)
  let keyed := joined ^^^ word64 secret 16 ^^^ word64 secret 24
  let p := product keyed (prime64a + (n.toUInt64 <<< 2))
  let high := p.high + (p.low <<< 1)
  let low := p.low ^^^ (high >>> 3)
  ⟨foldRight (foldRight low 35 * mixer2) 28, avalanche high⟩

/-- The hash of nine to sixteen bytes. -/
def hashUpTo16 (a : Array UInt8) : Wide :=
  let n := a.size
  let first := word64 a 0
  let last := word64 a (n - 8)
  let p := product (first ^^^ last ^^^ word64 secret 32 ^^^ word64 secret 40) prime64a
  let low := p.low + ((n - 1).toUInt64 <<< 54)
  let keyed := last ^^^ word64 secret 48 ^^^ word64 secret 56
  let high := p.high + (keyed + lowHalf keyed * (prime32b - 1))
  let q := product (low ^^^ reverseBytes high) prime64b
  ⟨avalanche q.low, avalanche (q.high + high * prime64b)⟩

/-! ### Inputs of up to 240 bytes -/

/-- Sixteen bytes of input combined with sixteen bytes of the secret. -/
def mix16 (a : Array UInt8) (offset key : Nat) : UInt64 :=
  foldProduct (word64 a offset ^^^ word64 secret key)
    (word64 a (offset + 8) ^^^ word64 secret (key + 8))

/-- Accumulates two halves of sixteen bytes, at `left` and `right`. -/
def mix32 (a : Array UInt8) (left right key : Nat) (acc : Wide) : Wide :=
  ⟨(acc.low + mix16 a left key) ^^^ (word64 a right + word64 a (right + 8)),
    (acc.high + mix16 a right (key + 16)) ^^^ (word64 a left + word64 a (left + 8))⟩

/-- Ends the hash of an input of 17 to 240 bytes. -/
def finish (length : Nat) (acc : Wide) : Wide :=
  ⟨avalanche (acc.low + acc.high),
    0 - avalanche (acc.low * prime64a + acc.high * prime64d + length.toUInt64 * prime64b)⟩

/-- The hash of 17 to 128 bytes: halves are paired from the outside in, the innermost first. -/
def hashUpTo128 (a : Array UInt8) : Wide :=
  let n := a.size
  let rounds := (n - 1) / 32 + 1
  finish n <| (List.range rounds).foldr
    (fun i acc => mix32 a (16 * i) (n - 16 * (i + 1)) (32 * i) acc) ⟨n.toUInt64 * prime64a, 0⟩

/-- The hash of 129 to 240 bytes: 32 bytes at a time, with an avalanche after the first four. -/
def hashUpTo240 (a : Array UInt8) : Wide :=
  let n := a.size
  let firstFour := (List.range 4).foldl
    (fun acc i => mix32 a (32 * i) (32 * i + 16) (32 * i) acc) ⟨n.toUInt64 * prime64a, 0⟩
  let settled : Wide := ⟨avalanche firstFour.low, avalanche firstFour.high⟩
  let others := (List.range (n / 32 - 4)).foldl
    (fun acc i => mix32 a (128 + 32 * i) (144 + 32 * i) (3 + 32 * i) acc) settled
  finish n (mix32 a (n - 16) (n - 32) 103 others)

/-! ### Longer inputs -/

/-- The eight lanes before the first stripe. -/
def initialLanes : Array UInt64 :=
  #[prime32c, prime64a, prime64b, prime64c, prime64d, prime32b, prime64e, prime32a]

/-- Accumulates the stripe of 64 bytes at an offset. -/
def accumulate (a : Array UInt8) (offset key : Nat) (lanes : Array UInt64) : Array UInt64 :=
  Array.ofFn fun (lane : Fin 8) =>
    let neighbour := word64 a (offset + 8 * (lane.val ^^^ 1))
    let keyed := word64 a (offset + 8 * lane.val) ^^^ word64 secret (key + 8 * lane.val)
    lanes.getD lane.val 0 + neighbour + lowHalf keyed * (keyed >>> 32)

/-- Scrambles the lanes at the end of a block. -/
def scramble (lanes : Array UInt64) : Array UInt64 :=
  Array.ofFn fun (lane : Fin 8) =>
    (foldRight (lanes.getD lane.val 0) 47 ^^^ word64 secret (128 + 8 * lane.val)) * prime32a

/-- Accumulates `count` stripes from an offset on. -/
def accumulateStripes (a : Array UInt8) (offset count : Nat) (lanes : Array UInt64) :
    Array UInt64 :=
  (List.range count).foldl (fun acc i => accumulate a (offset + 64 * i) (8 * i) acc) lanes

/-- Folds the lanes into one word. -/
def mergeLanes (lanes : Array UInt64) (key : Nat) (start : UInt64) : UInt64 :=
  avalanche <| (List.range 4).foldl
    (fun acc i => acc + foldProduct (lanes.getD (2 * i) 0 ^^^ word64 secret (key + 16 * i))
      (lanes.getD (2 * i + 1) 0 ^^^ word64 secret (key + 16 * i + 8))) start

/-- The hash of more than 240 bytes. -/
def hashLong (a : Array UInt8) : Wide :=
  let n := a.size
  let blocks := (n - 1) / 1024
  let scrambled := (List.range blocks).foldl
    (fun lanes i => scramble (accumulateStripes a (1024 * i) 16 lanes)) initialLanes
  let stripes := (n - 1 - 1024 * blocks) / 64
  let lanes := accumulate a (n - 64) 121 (accumulateStripes a (1024 * blocks) stripes scrambled)
  ⟨mergeLanes lanes 11 (n.toUInt64 * prime64a), mergeLanes lanes 117 (~~~(n.toUInt64 * prime64b))⟩

/-- The hash of an input of any length. -/
def hash (a : Array UInt8) : Wide :=
  if a.size = 0 then hashEmpty
  else if a.size ≤ 3 then hashUpTo3 a
  else if a.size ≤ 8 then hashUpTo8 a
  else if a.size ≤ 16 then hashUpTo16 a
  else if a.size ≤ 128 then hashUpTo128 a
  else if a.size ≤ 240 then hashUpTo240 a
  else hashLong a

end MacroAtlas.Xxh3
