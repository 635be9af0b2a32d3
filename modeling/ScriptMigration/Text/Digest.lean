/-! The 64-bit xxHash of a list of bytes with seed zero. Full stripes of 32 bytes go through four
lanes; the words, the half word and the bytes left over are mixed in one by one. -/
namespace ScriptMigration.Digest

def prime1 : UInt64 := 0x9E3779B185EBCA87
def prime2 : UInt64 := 0xC2B2AE3D27D4EB4F
def prime3 : UInt64 := 0x165667B19E3779F9
def prime4 : UInt64 := 0x85EBCA77C2B2AE63
def prime5 : UInt64 := 0x27D4EB2F165667C5

def rotate (word : UInt64) (by' : UInt64) : UInt64 := (word <<< by') ||| (word >>> (64 - by'))

def wordOf (bytes : List UInt8) : UInt64 :=
  bytes.foldr (fun byte word => word <<< 8 ||| byte.toUInt64) 0

def round (lane input : UInt64) : UInt64 := rotate (lane + input * prime2) 31 * prime1

structure Lanes where
  a : UInt64
  b : UInt64
  c : UInt64
  d : UInt64

namespace Lanes

def start : Lanes := ⟨prime1 + prime2, prime2, 0, 0 - prime1⟩

def absorb (lanes : Lanes) (bytes : List UInt8) : Lanes where
  a := round lanes.a (wordOf (bytes.take 8))
  b := round lanes.b (wordOf ((bytes.drop 8).take 8))
  c := round lanes.c (wordOf ((bytes.drop 16).take 8))
  d := round lanes.d (wordOf ((bytes.drop 24).take 8))

def merge (hash lane : UInt64) : UInt64 := (hash ^^^ round 0 lane) * prime1 + prime4

def join (lanes : Lanes) : UInt64 :=
  let hash := rotate lanes.a 1 + rotate lanes.b 7 + rotate lanes.c 12 + rotate lanes.d 18
  merge (merge (merge (merge hash lanes.a) lanes.b) lanes.c) lanes.d

end Lanes

def stripes : (count : Nat) → Lanes → List UInt8 → Lanes
  | 0, lanes, _ => lanes
  | count + 1, lanes, bytes => stripes count (lanes.absorb bytes) (bytes.drop 32)

def words : (count : Nat) → UInt64 → List UInt8 → UInt64
  | 0, hash, _ => hash
  | count + 1, hash, bytes =>
    words count (rotate (hash ^^^ round 0 (wordOf (bytes.take 8))) 27 * prime1 + prime4)
      (bytes.drop 8)

def tail (hash : UInt64) (bytes : List UInt8) : UInt64 :=
  let (hash, bytes) :=
    if 4 ≤ bytes.length then
      (rotate (hash ^^^ (wordOf (bytes.take 4) * prime1)) 23 * prime2 + prime3, bytes.drop 4)
    else (hash, bytes)
  bytes.foldl (fun hash byte => rotate (hash ^^^ (byte.toUInt64 * prime5)) 11 * prime1) hash

def avalanche (hash : UInt64) : UInt64 :=
  let hash := (hash ^^^ (hash >>> 33)) * prime2
  let hash := (hash ^^^ (hash >>> 29)) * prime3
  hash ^^^ (hash >>> 32)

def hash (bytes : List UInt8) : UInt64 :=
  let length := bytes.length
  let start := if 32 ≤ length then (stripes (length / 32) .start bytes).join else prime5
  let rest := bytes.drop (length / 32 * 32)
  let mixed := words (rest.length / 8) (start + length.toUInt64) rest
  avalanche (tail mixed (rest.drop (rest.length / 8 * 8)))

def ofText (text : String) : UInt64 := hash text.toUTF8.toList

end ScriptMigration.Digest
