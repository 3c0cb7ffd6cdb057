import BuildPlan.Uuid.Digest

/-! # Universally unique identifiers

An identifier is a number of 128 bits. It is written in lower case with hyphens, and read in that
form, without hyphens, or as a resource name, in either case. The identifier of a name is taken from
the digest of the name behind the identifier of its namespace. -/

namespace BuildPlan

/-- A number of 128 bits. -/
structure Uuid where
  value : BitVec 128
  deriving DecidableEq, Repr, Inhabited

namespace Uuid

/-- The identifier of sixteen bytes. -/
def ofBytes (bytes : List UInt8) : Uuid :=
  ⟨.ofNat 128 (bytes.foldl (fun n b => n * 256 + b.toNat) 0)⟩

def toBytes (u : Uuid) : List UInt8 := Digest.bigEndian 16 u.value.toNat

/-- The namespace of object identifiers. -/
def objectNamespace : Uuid := ⟨0x6ba7b8129dad11d180b400c04fd430c8⟩

/-- Marks the sixteen bytes of a digest as a name-based identifier: version five, and the variant of
the standard. -/
def mark (bytes : List UInt8) : List UInt8 :=
  (bytes.modify 6 fun b => (b &&& 0x0F) ||| 0x50).modify 8 fun b => (b &&& 0x3F) ||| 0x80

/-- The identifier of a name in a namespace. -/
def ofName (space : Uuid) (name : List UInt8) : Uuid :=
  ofBytes (mark ((Digest.hash (space.toBytes ++ name)).take 16))

/-- The text of thirty-two digits, with hyphens behind the digits 8, 12, 16 and 20. -/
def hyphenate (digits : List Char) : List Char :=
  let groups := [digits.take 8, (digits.drop 8).take 4, (digits.drop 12).take 4,
    (digits.drop 16).take 4, digits.drop 20]
  List.intercalate ['-'] groups

/-- The digit of a number below sixteen. -/
def hexDigit (n : Nat) : Char :=
  if n < 10 then Char.ofNat ('0'.toNat + n) else Char.ofNat ('a'.toNat + (n - 10))

/-- The identifier in lower case with hyphens. -/
def display (u : Uuid) : String :=
  String.ofList (hyphenate
    (u.toBytes.flatMap fun b => [hexDigit (b.toNat / 16), hexDigit (b.toNat % 16)]))

/-- The value of a hexadecimal digit in either case. -/
def digitValue? (c : Char) : Option Nat :=
  if '0' ≤ c && c ≤ '9' then some (c.toNat - '0'.toNat)
  else if 'a' ≤ c && c ≤ 'f' then some (c.toNat - 'a'.toNat + 10)
  else if 'A' ≤ c && c ≤ 'F' then some (c.toNat - 'A'.toNat + 10)
  else none

/-- The identifier of thirty-two digits. -/
def ofDigits? (digits : List Char) : Option Uuid :=
  if digits.length = 32 then
    (digits.mapM digitValue?).map fun ns => ⟨.ofNat 128 (ns.foldl (fun n d => n * 16 + d) 0)⟩
  else none

/-- The identifier of thirty-two digits with hyphens. -/
def ofHyphenated? (s : List Char) : Option Uuid :=
  let digits := s.filter (· != '-')
  if hyphenate digits = s then ofDigits? digits else none

/-- The scheme and namespace in front of an identifier that is a resource name. -/
def urn : List Char := ['u', 'r', 'n', ':', 'u', 'u', 'i', 'd', ':']

/-- Reads an identifier in one of its forms. -/
def parse? (s : List Char) : Option Uuid :=
  if s.length = 32 then ofDigits? s
  else if (s.take 9).map Char.toLower = urn then ofHyphenated? (s.drop 9)
  else ofHyphenated? s

end Uuid

end BuildPlan
