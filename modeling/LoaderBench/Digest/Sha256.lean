import LoaderBench.Text.Cut

/-!
# SHA-256

The digest of a message. The message is padded to whole blocks of sixty-four bytes: a byte with its
highest bit set, zeros, and the length of the message in bits as a word of eight bytes. Each block is
expanded into sixty-four words and mixed into eight registers by as many rounds; the registers after
the last block are the digest. All words are big-endian.
-/

namespace LoaderBench.Sha256

/-! ### Words -/

def rotateRight (x : UInt32) (count : UInt32) : UInt32 := (x >>> count) ||| (x <<< (32 - count))

def wordOf (a b c d : UInt8) : UInt32 :=
  (a.toUInt32 <<< 24) ||| (b.toUInt32 <<< 16) ||| (c.toUInt32 <<< 8) ||| d.toUInt32

/-- The words of a byte string whose length is a multiple of four. -/
def wordsOf : Bytes → List UInt32
  | a :: b :: c :: d :: rest => wordOf a b c d :: wordsOf rest
  | _ => []

def bytesOf (x : UInt32) : Bytes :=
  [(x >>> 24).toUInt8, (x >>> 16).toUInt8, (x >>> 8).toUInt8, x.toUInt8]

/-! ### The words of a block -/

/-- The first function of the expansion. -/
def spread0 (x : UInt32) : UInt32 := rotateRight x 7 ^^^ rotateRight x 18 ^^^ (x >>> 3)

/-- The second function of the expansion. -/
def spread1 (x : UInt32) : UInt32 := rotateRight x 17 ^^^ rotateRight x 19 ^^^ (x >>> 10)

def nextWord (window : List UInt32) : UInt32 :=
  spread1 (window.getD 14 0) + window.getD 9 0 + spread0 (window.getD 1 0) + window.getD 0 0

/-- Sixteen words, and as many more as asked for, each made from the sixteen before it. -/
def expand : Nat → List UInt32 → List UInt32
  | 0, window => window
  | n + 1, window => window.headD 0 :: expand n (window.tail ++ [nextWord window])

def roundCount : Nat := 64

/-- The words of a block, one for each round. -/
def schedule (block : Bytes) : List UInt32 := expand (roundCount - 16) (wordsOf block)

/-! ### Rounds -/

structure Registers where
  a : UInt32
  b : UInt32
  c : UInt32
  d : UInt32
  e : UInt32
  f : UInt32
  g : UInt32
  h : UInt32
  deriving DecidableEq

/-- The registers to begin with: the first bits of the fractions of the square roots of the first
eight primes. -/
def Registers.start : Registers :=
  ⟨0x6a09e667, 0xbb67ae85, 0x3c6ef372, 0xa54ff53a, 0x510e527f, 0x9b05688c, 0x1f83d9ab, 0x5be0cd19⟩

/-- The constants of the rounds: the first bits of the fractions of the cube roots of the first
sixty-four primes. -/
def roundConstants : List UInt32 :=
  [0x428a2f98, 0x71374491, 0xb5c0fbcf, 0xe9b5dba5, 0x3956c25b, 0x59f111f1, 0x923f82a4, 0xab1c5ed5,
   0xd807aa98, 0x12835b01, 0x243185be, 0x550c7dc3, 0x72be5d74, 0x80deb1fe, 0x9bdc06a7, 0xc19bf174,
   0xe49b69c1, 0xefbe4786, 0x0fc19dc6, 0x240ca1cc, 0x2de92c6f, 0x4a7484aa, 0x5cb0a9dc, 0x76f988da,
   0x983e5152, 0xa831c66d, 0xb00327c8, 0xbf597fc7, 0xc6e00bf3, 0xd5a79147, 0x06ca6351, 0x14292967,
   0x27b70a85, 0x2e1b2138, 0x4d2c6dfc, 0x53380d13, 0x650a7354, 0x766a0abb, 0x81c2c92e, 0x92722c85,
   0xa2bfe8a1, 0xa81a664b, 0xc24b8b70, 0xc76c51a3, 0xd192e819, 0xd6990624, 0xf40e3585, 0x106aa070,
   0x19a4c116, 0x1e376c08, 0x2748774c, 0x34b0bcb5, 0x391c0cb3, 0x4ed8aa4a, 0x5b9cca4f, 0x682e6ff3,
   0x748f82ee, 0x78a5636f, 0x84c87814, 0x8cc70208, 0x90befffa, 0xa4506ceb, 0xbef9a3f7, 0xc67178f2]

namespace Registers

/-- Of each bit, the one of `y` where `x` has one, else that of `z`. -/
def choose (x y z : UInt32) : UInt32 := (x &&& y) ^^^ (~~~x &&& z)

/-- Of each bit, what two of the three have. -/
def majority (x y z : UInt32) : UInt32 := (x &&& y) ^^^ (x &&& z) ^^^ (y &&& z)

/-- The function of the first register. -/
def mix0 (x : UInt32) : UInt32 := rotateRight x 2 ^^^ rotateRight x 13 ^^^ rotateRight x 22

/-- The function of the fifth register. -/
def mix1 (x : UInt32) : UInt32 := rotateRight x 6 ^^^ rotateRight x 11 ^^^ rotateRight x 25

/-- One round, with its constant and its word. -/
def round (r : Registers) (constant word : UInt32) : Registers :=
  let t1 := r.h + mix1 r.e + choose r.e r.f r.g + constant + word
  let t2 := mix0 r.a + majority r.a r.b r.c
  ⟨t1 + t2, r.a, r.b, r.c, r.d + t1, r.e, r.f, r.g⟩

/-- The sums of registers, one by one. -/
def add (r s : Registers) : Registers :=
  ⟨r.a + s.a, r.b + s.b, r.c + s.c, r.d + s.d, r.e + s.e, r.f + s.f, r.g + s.g, r.h + s.h⟩

def compress (r : Registers) (block : Bytes) : Registers :=
  r.add ((roundConstants.zip (schedule block)).foldl (fun r p => r.round p.1 p.2) r)

def bytes (r : Registers) : Bytes := [r.a, r.b, r.c, r.d, r.e, r.f, r.g, r.h].flatMap bytesOf

end Registers

/-! ### Messages -/

def blockLength : Nat := 64

/-- A length in bits, as eight bytes. -/
def lengthBytes (length : Nat) : Bytes :=
  let bits := UInt64.ofNat (8 * length)
  bytesOf (bits >>> 32).toUInt32 ++ bytesOf bits.toUInt32

/-- What is put behind a message of the given length. -/
def padding (length : Nat) : Bytes :=
  0x80 :: List.replicate ((119 - length % blockLength) % blockLength) 0 ++ lengthBytes length

def blocks (padded : Bytes) : List Bytes := cut blockLength padded

def digest (message : Bytes) : Bytes :=
  ((blocks (message ++ padding message.length)).foldl Registers.compress .start).bytes

/-! ### Lengths -/

theorem length_lengthBytes (length : Nat) : (lengthBytes length).length = 8 := rfl

/-- A padded message fills its blocks. -/
theorem length_padding (length : Nat) : (length + (padding length).length) % blockLength = 0 := by
  simp only [padding, List.cons_append, List.length_cons, List.length_append, List.length_replicate,
    length_lengthBytes, blockLength]
  omega

theorem length_digest (message : Bytes) : (digest message).length = 32 := by
  simp [digest, Registers.bytes, bytesOf]

end LoaderBench.Sha256
