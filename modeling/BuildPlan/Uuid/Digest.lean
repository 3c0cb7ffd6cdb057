/-! # The hash behind name-based identifiers

The Secure Hash Algorithm with a digest of 160 bits. A message is padded to whole blocks of sixteen
words; every block is expanded to eighty words, and each of these turns the five words of the state
once. -/

namespace BuildPlan.Digest

/-- The five words of the state. -/
structure State where
  a : UInt32
  b : UInt32
  c : UInt32
  d : UInt32
  e : UInt32
  deriving DecidableEq, Repr

/-- The state before the first block. -/
def initial : State := ⟨0x67452301, 0xEFCDAB89, 0x98BADCFE, 0x10325476, 0xC3D2E1F0⟩

/-- The word turned left by so many bits, of which there are fewer than thirty-two. -/
def rotateLeft (w n : UInt32) : UInt32 := (w <<< n) ||| (w >>> (32 - n))

/-- The bytes of a number, the highest first. -/
def bigEndian (count n : Nat) : List UInt8 :=
  (List.range count).reverse.map fun i => UInt8.ofNat (n >>> (8 * i))

/-- The message with a closing bit, zeros, and its length in bits, in whole blocks of 64 bytes. -/
def pad (message : List UInt8) : List UInt8 :=
  let zeros := (119 - message.length % 64) % 64
  message ++ 0x80 :: List.replicate zeros 0 ++ bigEndian 8 (8 * message.length)

/-- The words of four bytes each, the highest byte first. -/
def words : List UInt8 → List UInt32
  | a :: b :: c :: d :: rest =>
    ((a.toUInt32 <<< 24) ||| (b.toUInt32 <<< 16) ||| (c.toUInt32 <<< 8) ||| d.toUInt32) ::
      words rest
  | _ => []

/-- Adds so many words to a schedule, which is kept in reverse. Each one mixes the words three,
eight, fourteen and sixteen places before it. -/
def extend : Nat → List UInt32 → List UInt32
  | 0, schedule => schedule
  | n + 1, schedule =>
    let word := fun i => schedule.getD (i - 1) 0
    extend n (rotateLeft (word 3 ^^^ word 8 ^^^ word 14 ^^^ word 16) 1 :: schedule)

/-- The mixing function and the constant of a round. -/
def round (i : Nat) (s : State) : UInt32 × UInt32 :=
  if i < 20 then ((s.b &&& s.c) ||| (~~~s.b &&& s.d), 0x5A827999)
  else if i < 40 then (s.b ^^^ s.c ^^^ s.d, 0x6ED9EBA1)
  else if i < 60 then ((s.b &&& s.c) ||| (s.b &&& s.d) ||| (s.c &&& s.d), 0x8F1BBCDC)
  else (s.b ^^^ s.c ^^^ s.d, 0xCA62C1D6)

/-- Turns the state by one word of the schedule. -/
def turn (s : State) (step : Nat × UInt32) : State :=
  let (f, k) := round step.1 s
  ⟨rotateLeft s.a 5 + f + s.e + k + step.2, s.a, rotateLeft s.b 30, s.c, s.d⟩

/-- The state behind a block of sixteen words. -/
def compress (s : State) (block : List UInt32) : State :=
  let schedule := (extend 64 block.reverse).reverse
  let t := ((List.range 80).zip schedule).foldl turn s
  ⟨s.a + t.a, s.b + t.b, s.c + t.c, s.d + t.d, s.e + t.e⟩

/-- The state behind blocks of sixteen words, so many at most. -/
def compressAll : Nat → State → List UInt32 → State
  | 0, s, _ => s
  | n + 1, s, ws =>
    if ws.isEmpty then s else compressAll n (compress s (ws.take 16)) (ws.drop 16)

/-- The digest of a message: twenty bytes. -/
def hash (message : List UInt8) : List UInt8 :=
  let ws := words (pad message)
  let s := compressAll (ws.length / 16 + 1) initial ws
  [s.a, s.b, s.c, s.d, s.e].flatMap fun w => bigEndian 4 w.toNat

end BuildPlan.Digest
