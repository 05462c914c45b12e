/-!
UTF-8 read byte by byte. A decoder holds what it knows of an unfinished character, so cutting the
bytes into chunks cannot change the text. Every maximal piece that starts no well-formed character
becomes one replacement character.
-/

namespace VerifierHost.Text

abbrev Bytes := List UInt8

/-- The bytes of a character. -/
def utf8Char (c : Char) : Bytes :=
  let n := c.toNat
  if n < 0x80 then [UInt8.ofNat n]
  else if n < 0x800 then [UInt8.ofNat (0xC0 + n / 64), UInt8.ofNat (0x80 + n % 64)]
  else if n < 0x10000 then
    [UInt8.ofNat (0xE0 + n / 4096), UInt8.ofNat (0x80 + n / 64 % 64), UInt8.ofNat (0x80 + n % 64)]
  else
    [UInt8.ofNat (0xF0 + n / 262144), UInt8.ofNat (0x80 + n / 4096 % 64),
      UInt8.ofNat (0x80 + n / 64 % 64), UInt8.ofNat (0x80 + n % 64)]

def utf8 (cs : List Char) : Bytes := cs.flatMap utf8Char

def replacement : Char := '\uFFFD'

/--
A decoder between two bytes. Inside a character, `more` bytes follow the next one, which has to lie
between `low` and `high`, and `value` holds the bits read so far. The second byte after 0xED tells a
character from a surrogate; the first two bytes of a surrogate are held until a byte follows them.
-/
inductive Utf8 where
  | start
  | inside (more low high value : Nat)
  | afterED
  | surrogate
  deriving DecidableEq, Repr

namespace Utf8

/-- The first byte of a character; the bounds on its second byte rule out overlong forms. -/
def lead (b : UInt8) : List Char × Utf8 :=
  let n := b.toNat
  if n < 0x80 then ([Char.ofNat n], start)
  else if n < 0xC2 then ([replacement], start)
  else if n < 0xE0 then ([], inside 0 0x80 0xBF (n - 0xC0))
  else if n = 0xE0 then ([], inside 1 0xA0 0xBF 0)
  else if n = 0xED then ([], afterED)
  else if n < 0xF0 then ([], inside 1 0x80 0xBF (n - 0xE0))
  else if n = 0xF0 then ([], inside 2 0x90 0xBF 0)
  else if n < 0xF4 then ([], inside 2 0x80 0xBF (n - 0xF0))
  else if n = 0xF4 then ([], inside 2 0x80 0x8F 4)
  else ([replacement], start)

/-- Reads one byte. A byte that cannot continue a character ends it and is read afresh. -/
def step : Utf8 → UInt8 → List Char × Utf8
  | start, b => lead b
  | inside more low high value, b =>
    if low ≤ b.toNat ∧ b.toNat ≤ high then
      let value' := value * 64 + b.toNat % 64
      match more with
      | 0 => ([Char.ofNat value'], start)
      | more + 1 => ([], inside more 0x80 0xBF value')
    else
      let (cs, d) := lead b
      (replacement :: cs, d)
  | afterED, b =>
    if 0x80 ≤ b.toNat ∧ b.toNat ≤ 0x9F then ([], inside 0 0x80 0xBF (0xD * 64 + b.toNat % 64))
    else if 0xA0 ≤ b.toNat ∧ b.toNat ≤ 0xBF then ([], surrogate)
    else
      let (cs, d) := lead b
      (replacement :: cs, d)
  | surrogate, b =>
    let (cs, d) := lead b
    (replacement :: replacement :: cs, d)

/-- Reads bytes in front of characters that were read before, the latest first. -/
def readOnto : List Char → Utf8 → Bytes → List Char × Utf8
  | read, d, [] => (read, d)
  | read, d, b :: bs =>
    let (cs, d') := d.step b
    readOnto (cs.reverse ++ read) d' bs

/-- The characters that a chunk of bytes completes. -/
def feed (d : Utf8) (chunk : Bytes) : List Char × Utf8 :=
  let (read, d') := readOnto [] d chunk
  (read.reverse, d')

/-- What is left at the end of the bytes: what is unfinished is replaced. -/
def finish : Utf8 → List Char
  | start => []
  | inside .. | afterED => [replacement]
  | surrogate => [replacement, replacement]

/-- The text of a whole sequence of bytes. -/
def decode (bytes : Bytes) : List Char :=
  let (cs, d) := start.feed bytes
  cs ++ d.finish

end Utf8

/-- The text of bytes that are well-formed throughout. -/
def Bytes.text? (bytes : Bytes) : Option String := String.fromUTF8? (ByteArray.mk bytes.toArray)

end VerifierHost.Text
