/-!
The 64-bit XXH3 digest of a byte string, with seed zero and the standard secret. Shard documents
are named by it.
-/

namespace DataReach.Digest

def secret : ByteArray := ⟨#[
  0xb8, 0xfe, 0x6c, 0x39, 0x23, 0xa4, 0x4b, 0xbe, 0x7c, 0x01, 0x81, 0x2c, 0xf7, 0x21, 0xad, 0x1c,
  0xde, 0xd4, 0x6d, 0xe9, 0x83, 0x90, 0x97, 0xdb, 0x72, 0x40, 0xa4, 0xa4, 0xb7, 0xb3, 0x67, 0x1f,
  0xcb, 0x79, 0xe6, 0x4e, 0xcc, 0xc0, 0xe5, 0x78, 0x82, 0x5a, 0xd0, 0x7d, 0xcc, 0xff, 0x72, 0x21,
  0xb8, 0x08, 0x46, 0x74, 0xf7, 0x43, 0x24, 0x8e, 0xe0, 0x35, 0x90, 0xe6, 0x81, 0x3a, 0x26, 0x4c,
  0x3c, 0x28, 0x52, 0xbb, 0x91, 0xc3, 0x00, 0xcb, 0x88, 0xd0, 0x65, 0x8b, 0x1b, 0x53, 0x2e, 0xa3,
  0x71, 0x64, 0x48, 0x97, 0xa2, 0x0d, 0xf9, 0x4e, 0x38, 0x19, 0xef, 0x46, 0xa9, 0xde, 0xac, 0xd8,
  0xa8, 0xfa, 0x76, 0x3f, 0xe3, 0x9c, 0x34, 0x3f, 0xf9, 0xdc, 0xbb, 0xc7, 0xc7, 0x0b, 0x4f, 0x1d,
  0x8a, 0x51, 0xe0, 0x4b, 0xcd, 0xb4, 0x59, 0x31, 0xc8, 0x9f, 0x7e, 0xc9, 0xd9, 0x78, 0x73, 0x64,
  0xea, 0xc5, 0xac, 0x83, 0x34, 0xd3, 0xeb, 0xc3, 0xc5, 0x81, 0xa0, 0xff, 0xfa, 0x13, 0x63, 0xeb,
  0x17, 0x0d, 0xdd, 0x51, 0xb7, 0xf0, 0xda, 0x49, 0xd3, 0x16, 0x55, 0x26, 0x29, 0xd4, 0x68, 0x9e,
  0x2b, 0x16, 0xbe, 0x58, 0x7d, 0x47, 0xa1, 0xfc, 0x8f, 0xf8, 0xb8, 0xd1, 0x7a, 0xd0, 0x31, 0xce,
  0x45, 0xcb, 0x3a, 0x8f, 0x95, 0x16, 0x04, 0x28, 0xaf, 0xd7, 0xfb, 0xca, 0xbb, 0x4b, 0x40, 0x7e]⟩

def prime32a : UInt64 := 0x9E3779B1
def prime32b : UInt64 := 0x85EBCA77
def prime32c : UInt64 := 0xC2B2AE3D
def prime64a : UInt64 := 0x9E3779B185EBCA87
def prime64b : UInt64 := 0xC2B2AE3D27D4EB4F
def prime64c : UInt64 := 0x165667B19E3779F9
def prime64d : UInt64 := 0x85EBCA77C2B2AE63
def prime64e : UInt64 := 0x27D4EB2F165667C5

def byteAt (b : ByteArray) (i : Nat) : UInt64 :=
  if h : i < b.size then b[i].toUInt64 else 0

def word (b : ByteArray) (i : Nat) : Nat → UInt64
  | 0 => 0
  | count + 1 => byteAt b i ||| (word b (i + 1) count <<< 8)

def word32 (b : ByteArray) (i : Nat) : UInt64 := word b i 4
def word64 (b : ByteArray) (i : Nat) : UInt64 := word b i 8

def rotate (x n : UInt64) : UInt64 := (x <<< n) ||| (x >>> (64 - n))

def swapBytes (x : UInt64) : UInt64 :=
  (List.range 8).foldl (fun acc i => (acc <<< 8) ||| ((x >>> (8 * i.toUInt64)) &&& 0xFF))
    (0 : UInt64)

def foldProduct (a b : UInt64) : UInt64 :=
  let product := a.toNat * b.toNat
  (product % UInt64.size).toUInt64 ^^^ (product / UInt64.size).toUInt64

def avalanche (x : UInt64) : UInt64 :=
  let x := (x ^^^ (x >>> 37)) * 0x165667919E3779F9
  x ^^^ (x >>> 32)

def avalanche64 (x : UInt64) : UInt64 :=
  let x := (x ^^^ (x >>> 33)) * prime64b
  let x := (x ^^^ (x >>> 29)) * prime64c
  x ^^^ (x >>> 32)

def mix16 (b : ByteArray) (i s : Nat) : UInt64 :=
  foldProduct (word64 b i ^^^ word64 secret s) (word64 b (i + 8) ^^^ word64 secret (s + 8))

def upTo3 (b : ByteArray) : UInt64 :=
  let n := b.size
  let combined := (byteAt b 0 <<< 16) ||| (byteAt b (n / 2) <<< 24) ||| byteAt b (n - 1) |||
    (n.toUInt64 <<< 8)
  avalanche64 (combined ^^^ (word32 secret 0 ^^^ word32 secret 4))

def upTo8 (b : ByteArray) : UInt64 :=
  let n := b.size
  let input := word32 b (n - 4) + (word32 b 0 <<< 32)
  let x := input ^^^ (word64 secret 8 ^^^ word64 secret 16)
  let x := (x ^^^ rotate x 49 ^^^ rotate x 24) * 0x9FB21C651E98DF25
  let x := (x ^^^ ((x >>> 35) + n.toUInt64)) * 0x9FB21C651E98DF25
  x ^^^ (x >>> 28)

def upTo16 (b : ByteArray) : UInt64 :=
  let n := b.size
  let lo := word64 b 0 ^^^ (word64 secret 24 ^^^ word64 secret 32)
  let hi := word64 b (n - 8) ^^^ (word64 secret 40 ^^^ word64 secret 48)
  avalanche (n.toUInt64 + swapBytes lo + hi + foldProduct lo hi)

/-- Pairs of 16-byte lanes from both ends inwards, the outermost last. -/
def upTo128 (b : ByteArray) : UInt64 :=
  let n := b.size
  let lanes := (n - 1) / 32 + 1
  let mixed := (List.range lanes).foldl
    (fun acc k => acc + mix16 b (16 * k) (32 * k) + mix16 b (n - 16 * (k + 1)) (32 * k + 16))
    (n.toUInt64 * prime64a)
  avalanche mixed

def upTo240 (b : ByteArray) : UInt64 :=
  let n := b.size
  let head := (List.range 8).foldl (fun acc k => acc + mix16 b (16 * k) (16 * k))
    (n.toUInt64 * prime64a)
  let tail := (List.range (n / 16 - 8)).foldl
    (fun acc k => acc + mix16 b (16 * (k + 8)) (16 * k + 3)) (avalanche head)
  avalanche (tail + mix16 b (n - 16) 119)

abbrev Lanes := List UInt64

def startLanes : Lanes :=
  [prime32c, prime64a, prime64b, prime64c, prime64d, prime32b, prime64e, prime32a]

/-- Adds the stripe at `i`, keyed by the secret from `s` on; each value goes to the other lane of
its pair, each product to its own. -/
def accumulate (b : ByteArray) (i s : Nat) (lanes : Lanes) : Lanes :=
  lanes.zipIdx.map fun (lane, k) =>
    let key := word64 b (i + 8 * k) ^^^ word64 secret (s + 8 * k)
    let other := if k % 2 = 0 then k + 1 else k - 1
    lane + word64 b (i + 8 * other) + (key &&& (0xFFFFFFFF : UInt64)) * (key >>> 32)

def scramble (lanes : Lanes) : Lanes :=
  lanes.zipIdx.map fun (lane, k) =>
    (lane ^^^ (lane >>> 47) ^^^ word64 secret (128 + 8 * k)) * prime32a

def stripes (b : ByteArray) (start count : Nat) (lanes : Lanes) : Lanes :=
  (List.range count).foldl (fun acc k => accumulate b (start + 64 * k) (8 * k) acc) lanes

def merge (start : UInt64) : Nat → Lanes → UInt64
  | s, x :: y :: rest =>
    merge (start + foldProduct (x ^^^ word64 secret s) (y ^^^ word64 secret (s + 8))) (s + 16) rest
  | _, _ => start

def over240 (b : ByteArray) : UInt64 :=
  let n := b.size
  let blocks := (n - 1) / 1024
  let lanes := (List.range blocks).foldl
    (fun acc k => scramble (stripes b (1024 * k) 16 acc)) startLanes
  let lanes := stripes b (1024 * blocks) ((n - 1 - 1024 * blocks) / 64) lanes
  let lanes := accumulate b (n - 64) 121 lanes
  avalanche (merge (n.toUInt64 * prime64a) 11 lanes)

def xxh3 (b : ByteArray) : UInt64 :=
  let n := b.size
  if n = 0 then avalanche64 (word64 secret 56 ^^^ word64 secret 64)
  else if n ≤ 3 then upTo3 b
  else if n ≤ 8 then upTo8 b
  else if n ≤ 16 then upTo16 b
  else if n ≤ 128 then upTo128 b
  else if n ≤ 240 then upTo240 b
  else over240 b

def hex (x : UInt64) : String :=
  let digits := Nat.toDigits 16 x.toNat
  String.ofList (List.replicate (16 - digits.length) '0' ++ digits)

end DataReach.Digest
