import SkyMoonScope.Lib.Bytes

/-!
# SHA-256

The hash function of FIPS 180-4, on byte strings. A message is padded to a multiple of 64 bytes,
and its blocks are folded into a state of eight 32-bit words.

## Main definitions

* `Sha256.compress`: the compression of one block into the state
* `Sha256.hash`: the digest of a message
* `Sha256.hmac`: the message authentication code of RFC 2104 with this hash
-/

namespace Sha256

abbrev Word := BitVec 32

/-- The eight words of the chaining state. -/
structure State where
  (a b c d e f g h : Word)

def ch (x y z : Word) : Word := (x &&& y) ^^^ (~~~x &&& z)

def maj (x y z : Word) : Word := (x &&& y) ^^^ (x &&& z) ^^^ (y &&& z)

def bigSigma0 (x : Word) : Word := x.rotateRight 2 ^^^ x.rotateRight 13 ^^^ x.rotateRight 22

def bigSigma1 (x : Word) : Word := x.rotateRight 6 ^^^ x.rotateRight 11 ^^^ x.rotateRight 25

def smallSigma0 (x : Word) : Word := x.rotateRight 7 ^^^ x.rotateRight 18 ^^^ (x >>> 3)

def smallSigma1 (x : Word) : Word := x.rotateRight 17 ^^^ x.rotateRight 19 ^^^ (x >>> 10)

/-- The round constants: the first 32 bits of the fractional parts of the cube roots of the first
64 primes. -/
def roundConstants : List Word := [
  0x428a2f98, 0x71374491, 0xb5c0fbcf, 0xe9b5dba5, 0x3956c25b, 0x59f111f1, 0x923f82a4, 0xab1c5ed5,
  0xd807aa98, 0x12835b01, 0x243185be, 0x550c7dc3, 0x72be5d74, 0x80deb1fe, 0x9bdc06a7, 0xc19bf174,
  0xe49b69c1, 0xefbe4786, 0x0fc19dc6, 0x240ca1cc, 0x2de92c6f, 0x4a7484aa, 0x5cb0a9dc, 0x76f988da,
  0x983e5152, 0xa831c66d, 0xb00327c8, 0xbf597fc7, 0xc6e00bf3, 0xd5a79147, 0x06ca6351, 0x14292967,
  0x27b70a85, 0x2e1b2138, 0x4d2c6dfc, 0x53380d13, 0x650a7354, 0x766a0abb, 0x81c2c92e, 0x92722c85,
  0xa2bfe8a1, 0xa81a664b, 0xc24b8b70, 0xc76c51a3, 0xd192e819, 0xd6990624, 0xf40e3585, 0x106aa070,
  0x19a4c116, 0x1e376c08, 0x2748774c, 0x34b0bcb5, 0x391c0cb3, 0x4ed8aa4a, 0x5b9cca4f, 0x682e6ff3,
  0x748f82ee, 0x78a5636f, 0x84c87814, 0x8cc70208, 0x90befffa, 0xa4506ceb, 0xbef9a3f7, 0xc67178f2]

/-- The initial state: the first 32 bits of the fractional parts of the square roots of the first
eight primes. -/
def initialState : State :=
  ⟨0x6a09e667, 0xbb67ae85, 0x3c6ef372, 0xa54ff53a, 0x510e527f, 0x9b05688c, 0x1f83d9ab, 0x5be0cd19⟩

/-- The message schedule extended by `n` words; the latest word comes first. -/
def schedule : ℕ → List Word → List Word
  | 0, w => w
  | n + 1, w =>
    schedule n
      ((smallSigma1 (w.getD 1 0) + w.getD 6 0 + smallSigma0 (w.getD 14 0) + w.getD 15 0) :: w)

/-- One round, with its constant and its schedule word. -/
def round (s : State) (kw : Word × Word) : State :=
  let t₁ := s.h + bigSigma1 s.e + ch s.e s.f s.g + kw.1 + kw.2
  let t₂ := bigSigma0 s.a + maj s.a s.b s.c
  ⟨t₁ + t₂, s.a, s.b, s.c, s.d + t₁, s.e, s.f, s.g⟩

/-- The compression of one block of sixteen words into the state. -/
def compress (s : State) (block : List Word) : State :=
  let r := (roundConstants.zip (schedule 48 block.reverse).reverse).foldl round s
  ⟨s.a + r.a, s.b + r.b, s.c + r.c, s.d + r.d, s.e + r.e, s.f + r.f, s.g + r.g, s.h + r.h⟩

/-- The message, a one bit, zeros up to 56 bytes modulo 64, and the message length in bits. -/
def pad (m : List UInt8) : List UInt8 :=
  m ++ 0x80 :: List.replicate ((119 - m.length % 64) % 64) 0 ++ beBytes 8 (8 * m.length)

/-- The big-endian words of a byte string. -/
def words : List UInt8 → List Word
  | a :: b :: c :: d :: t =>
    BitVec.ofNat 32 (((a.toNat * 256 + b.toNat) * 256 + c.toNat) * 256 + d.toNat) :: words t
  | _ => []

/-- The first `n` blocks of sixteen words, folded into the state. -/
def compressBlocks : ℕ → List Word → State → State
  | 0, _, s => s
  | n + 1, w, s => compressBlocks n (w.drop 16) (compress s (w.take 16))

def digest (s : State) : List UInt8 :=
  [s.a, s.b, s.c, s.d, s.e, s.f, s.g, s.h].flatMap fun x => beBytes 4 x.toNat

/-- **SHA-256**. -/
def hash (m : List UInt8) : BytesN 32 :=
  ⟨digest (compressBlocks ((pad m).length / 64) (words (pad m)) initialState), by
    simp [digest]⟩

/-- The digest of `abc`, from the standard. -/
example : hash [0x61, 0x62, 0x63] = ⟨
    [0xba, 0x78, 0x16, 0xbf, 0x8f, 0x01, 0xcf, 0xea, 0x41, 0x41, 0x40, 0xde,
     0x5d, 0xae, 0x22, 0x23, 0xb0, 0x03, 0x61, 0xa3, 0x96, 0x17, 0x7a, 0x9c,
     0xb4, 0x10, 0xff, 0x61, 0xf2, 0x00, 0x15, 0xad],
    rfl⟩ := by decide +kernel

/-- A key as one block: a longer key is hashed first. -/
def hmacKey (key : List UInt8) : List UInt8 :=
  (if key.length ≤ 64 then key else (hash key).toList).rightpad 64 0

/-- **HMAC-SHA-256**. -/
def hmac (key m : List UInt8) : BytesN 32 :=
  hash ((hmacKey key).map (· ^^^ 0x5c) ++ (hash ((hmacKey key).map (· ^^^ 0x36) ++ m)).toList)

/-- The second test case of RFC 4231. -/
example : hmac "Jefe".toUTF8.data.toList "what do ya want for nothing?".toUTF8.data.toList = ⟨
    [0x5b, 0xdc, 0xc1, 0x46, 0xbf, 0x60, 0x75, 0x4e, 0x6a, 0x04, 0x24, 0x26,
     0x08, 0x95, 0x75, 0xc7, 0x5a, 0x00, 0x3f, 0x08, 0x9d, 0x27, 0x39, 0x83,
     0x9d, 0xec, 0x58, 0xb9, 0x64, 0xec, 0x38, 0x43],
    rfl⟩ := by decide +kernel

end Sha256
