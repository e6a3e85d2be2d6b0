/-!
# Bytes and text

Paths, environment values and file contents are byte strings; messages and records are Unicode text.
`encode` writes text as UTF-8. Reading goes byte by byte: `pieces` splits any byte string into
characters and broken runs, where a broken run is a longest stretch that some valid character begins
with (or a single byte that begins none). `lossy` shows each broken run as one replacement character;
`decode?` accepts exactly the byte strings that encode a text.
-/

namespace LoaderBench

/-- A byte string: a path, an environment value, the content of a file. -/
abbrev Bytes := List UInt8

namespace Utf8

/-! ### Encoding -/

/-- The UTF-8 bytes of a text. -/
def encode (s : String) : Bytes := s.toList.flatMap String.utf8EncodeChar

@[simp] theorem encode_empty : encode "" = [] := by simp [encode]

@[simp] theorem encode_append (s t : String) : encode (s ++ t) = encode s ++ encode t := by
  simp [encode]

/-! ### Decoding -/

/-- A part of a byte string that is read as a whole. -/
inductive Piece where
  | char (c : Char)
  | broken (bytes : Bytes)
  deriving DecidableEq

/-- A character under way: the bytes read so far, the bits they carry, how many bytes follow the next
one, and the range in which the next byte must lie. -/
structure Pending where
  seen : Bytes
  value : Nat
  more : Nat
  low : UInt8
  high : UInt8

/-- What a byte begins. The narrower ranges after `E0`, `ED`, `F0` and `F4` keep out overlong forms,
surrogates and values above `10FFFF`. -/
def start (b : UInt8) : List Piece × Option Pending :=
  if b < 0x80 then ([.char (Char.ofNat b.toNat)], none)
  else if b < 0xC2 then ([.broken [b]], none)
  else if b < 0xE0 then ([], some ⟨[b], b.toNat - 0xC0, 0, 0x80, 0xBF⟩)
  else if b < 0xF0 then
    ([], some ⟨[b], b.toNat - 0xE0, 1, if b = 0xE0 then 0xA0 else 0x80, if b = 0xED then 0x9F else 0xBF⟩)
  else if b < 0xF5 then
    ([], some ⟨[b], b.toNat - 0xF0, 2, if b = 0xF0 then 0x90 else 0x80, if b = 0xF4 then 0x8F else 0xBF⟩)
  else ([.broken [b]], none)

/-- One byte more: it continues the character under way, or breaks it off and begins anew. -/
def step : Option Pending → UInt8 → List Piece × Option Pending
  | none, b => start b
  | some p, b =>
    if p.low ≤ b ∧ b ≤ p.high then
      let value := p.value * 64 + (b.toNat - 0x80)
      match p.more with
      | 0 => ([.char (Char.ofNat value)], none)
      | more + 1 => ([], some ⟨p.seen ++ [b], value, more, 0x80, 0xBF⟩)
    else (.broken p.seen :: (start b).1, (start b).2)

/-- The pieces of a byte string, given the character under way. -/
def piecesFrom : Option Pending → Bytes → List Piece
  | none, [] => []
  | some p, [] => [.broken p.seen]
  | p, b :: rest => (step p b).1 ++ piecesFrom (step p b).2 rest

def pieces (bytes : Bytes) : List Piece := piecesFrom none bytes

/-- The character that stands for a broken run. -/
def replacement : Char := '\uFFFD'

def Piece.shown : Piece → Char
  | .char c => c
  | .broken _ => replacement

def lossy (bytes : Bytes) : String := String.ofList ((pieces bytes).map Piece.shown)

/-- The text whose encoding is `bytes`, if there is one. -/
def decode? (bytes : Bytes) : Option String :=
  let s := lossy bytes
  if encode s = bytes then some s else none

theorem encode_of_decode? {bytes : Bytes} {s : String} (h : decode? bytes = some s) :
    encode s = bytes := by
  simp only [decode?] at h
  split at h
  · simp_all
  · simp at h

end Utf8
end LoaderBench
