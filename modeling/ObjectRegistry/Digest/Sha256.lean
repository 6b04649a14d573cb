/-!
# SHA-256

The hash of FIPS 180-4 over whole bytes. The message is padded with one set bit, zeros and its
length in bits to a multiple of 64 bytes (`pad`); each block of 64 bytes is spread over 64 words
(`schedule`) and stirred into eight chaining words (`compress`).
-/

namespace ObjectRegistry.Digest.Sha256

/-- The eight chaining words. -/
structure Chain where
  a : UInt32
  b : UInt32
  c : UInt32
  d : UInt32
  e : UInt32
  f : UInt32
  g : UInt32
  h : UInt32

/-- The chaining words before the first block: the fractions of the roots of eight primes. -/
def Chain.start : Chain where
  a := 0x6a09e667
  b := 0xbb67ae85
  c := 0x3c6ef372
  d := 0xa54ff53a
  e := 0x510e527f
  f := 0x9b05688c
  g := 0x1f83d9ab
  h := 0x5be0cd19

/-- Word-wise sum of two chains. -/
def Chain.add (x y : Chain) : Chain where
  a := x.a + y.a
  b := x.b + y.b
  c := x.c + y.c
  d := x.d + y.d
  e := x.e + y.e
  f := x.f + y.f
  g := x.g + y.g
  h := x.h + y.h

/-- The words of a chain in order. -/
def Chain.words (x : Chain) : List UInt32 :=
  [x.a, x.b, x.c, x.d, x.e, x.f, x.g, x.h]

/-- The constant of each of the 64 rounds. -/
def roundConstants : List UInt32 := [
  0x428a2f98, 0x71374491, 0xb5c0fbcf, 0xe9b5dba5, 0x3956c25b, 0x59f111f1, 0x923f82a4, 0xab1c5ed5,
  0xd807aa98, 0x12835b01, 0x243185be, 0x550c7dc3, 0x72be5d74, 0x80deb1fe, 0x9bdc06a7, 0xc19bf174,
  0xe49b69c1, 0xefbe4786, 0x0fc19dc6, 0x240ca1cc, 0x2de92c6f, 0x4a7484aa, 0x5cb0a9dc, 0x76f988da,
  0x983e5152, 0xa831c66d, 0xb00327c8, 0xbf597fc7, 0xc6e00bf3, 0xd5a79147, 0x06ca6351, 0x14292967,
  0x27b70a85, 0x2e1b2138, 0x4d2c6dfc, 0x53380d13, 0x650a7354, 0x766a0abb, 0x81c2c92e, 0x92722c85,
  0xa2bfe8a1, 0xa81a664b, 0xc24b8b70, 0xc76c51a3, 0xd192e819, 0xd6990624, 0xf40e3585, 0x106aa070,
  0x19a4c116, 0x1e376c08, 0x2748774c, 0x34b0bcb5, 0x391c0cb3, 0x4ed8aa4a, 0x5b9cca4f, 0x682e6ff3,
  0x748f82ee, 0x78a5636f, 0x84c87814, 0x8cc70208, 0x90befffa, 0xa4506ceb, 0xbef9a3f7, 0xc67178f2]

/-- A word turned right by `n` of its 32 bits. -/
def rotate (x : UInt32) (n : UInt32) : UInt32 :=
  (x >>> n) ||| (x <<< (32 - n))

/-- One round, for a round constant and a scheduled word. -/
def round (x : Chain) (constant word : UInt32) : Chain :=
  let s1 := rotate x.e 6 ^^^ rotate x.e 11 ^^^ rotate x.e 25
  let choice := (x.e &&& x.f) ^^^ (~~~x.e &&& x.g)
  let t1 := x.h + s1 + choice + constant + word
  let s0 := rotate x.a 2 ^^^ rotate x.a 13 ^^^ rotate x.a 22
  let majority := (x.a &&& x.b) ^^^ (x.a &&& x.c) ^^^ (x.b &&& x.c)
  { a := t1 + (s0 + majority), b := x.a, c := x.b, d := x.c
    e := x.d + t1, f := x.e, g := x.f, h := x.g }

/-- The word scheduled after the sixteen given ones, of which `w2` is two back, `w16` sixteen. -/
def nextWord (w2 w7 w15 w16 : UInt32) : UInt32 :=
  let s0 := rotate w15 7 ^^^ rotate w15 18 ^^^ (w15 >>> 3)
  let s1 := rotate w2 17 ^^^ rotate w2 19 ^^^ (w2 >>> 10)
  w16 + s0 + w7 + s1

/-- Puts `n` further words in front of a schedule that is kept latest word first. -/
def extendSchedule : Nat → List UInt32 → List UInt32
  | 0, words => words
  | n + 1, words =>
    match words with
    | _ :: w2 :: _ :: _ :: _ :: _ :: w7 :: _ :: _ :: _ :: _ :: _ :: _ :: _ :: w15 :: w16 :: _ =>
      extendSchedule n (nextWord w2 w7 w15 w16 :: words)
    | _ => words

/-- The byte at a position, zero behind the end. -/
def byteAt (bytes : ByteArray) (i : Nat) : UInt8 :=
  if h : i < bytes.size then bytes[i] else 0

/-- The four bytes from a position on as a word, the highest byte first. -/
def wordAt (bytes : ByteArray) (i : Nat) : UInt32 :=
  (byteAt bytes i).toUInt32 <<< 24 ||| (byteAt bytes (i + 1)).toUInt32 <<< 16 |||
    (byteAt bytes (i + 2)).toUInt32 <<< 8 ||| (byteAt bytes (i + 3)).toUInt32

/-- The 64 words of the block that starts at a position. -/
def schedule (bytes : ByteArray) (i : Nat) : List UInt32 :=
  let first := (List.range 16).map fun k => wordAt bytes (i + 4 * k)
  (extendSchedule 48 first.reverse).reverse

/-- The chain after the block that starts at a position. -/
def compress (bytes : ByteArray) (x : Chain) (i : Nat) : Chain :=
  x.add ((roundConstants.zip (schedule bytes i)).foldl (fun y kw => round y kw.1 kw.2) x)

/-- The eight bytes of a 64-bit word, the highest first. -/
def bytesOfWord64 (n : UInt64) : List UInt8 :=
  [56, 48, 40, 32, 24, 16, 8, 0].map fun (shift : UInt64) => (n >>> shift).toUInt8

/-- The four bytes of a word, the highest first. -/
def bytesOfWord (w : UInt32) : List UInt8 :=
  [24, 16, 8, 0].map fun (shift : UInt32) => (w >>> shift).toUInt8

/-- The zero bytes between the closing bit and the length. -/
def zerosAfter (size : Nat) : Nat :=
  (119 - size % 64) % 64

/-- A message, its closing bit, zeros up to the last eight bytes of a block, its length in bits. -/
def pad (message : ByteArray) : ByteArray :=
  let tail := 0x80 :: (List.replicate (zerosAfter message.size) 0 ++
    bytesOfWord64 (UInt64.ofNat (8 * message.size)))
  tail.foldl ByteArray.push message

/-- The 32 bytes of the hash of a message. -/
def hash (message : ByteArray) : List UInt8 :=
  let padded := pad message
  let chain := (List.range (padded.size / 64)).foldl
    (fun x block => compress padded x (64 * block)) Chain.start
  chain.words.flatMap bytesOfWord

end ObjectRegistry.Digest.Sha256
