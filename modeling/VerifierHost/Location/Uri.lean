import VerifierHost.Location.Path
import VerifierHost.Text.NameBytes

/-!
Files as URIs. A path is made absolute and its bytes are percent-encoded, all but slashes and
unreserved characters; a path that has no bytes has no URI. The way back reads the scheme, drops the
authority, the query and the fragment, and decodes what is left.
-/

namespace VerifierHost.Uri

/-- The bytes that a path in a URI shows as they are. -/
def isPlain (b : UInt8) : Bool :=
  let c := Char.ofNat b.toNat
  c.isAlphanum || c = '_' || c = '.' || c = '-' || c = '~' || c = '/'

/-- A hexadecimal digit in upper case. -/
def hexUpper (n : Nat) : Char := Char.ofNat (if n < 10 then n + 48 else n + 55)

def encodeByte (b : UInt8) : List Char :=
  if isPlain b then [Char.ofNat b.toNat]
  else ['%', hexUpper (b.toNat / 16), hexUpper (b.toNat % 16)]

def encode (bytes : Text.Bytes) : List Char := bytes.flatMap encodeByte

/-- The URI of a file named in a directory. -/
def ofFile? (directory : FilePath) (path : Text) : Option Text :=
  (FilePath.under directory (FilePath.ofText path)).toText.nameBytes?.map fun bytes =>
    "file://" ++ Text.ofChars (encode bytes)

def hexValue? (c : Char) : Option Nat :=
  if '0' ≤ c ∧ c ≤ '9' then some (c.toNat - 48)
  else if 'a' ≤ c ∧ c ≤ 'f' then some (c.toNat - 87)
  else if 'A' ≤ c ∧ c ≤ 'F' then some (c.toNat - 55)
  else none

/-- The byte that the two characters after a percent sign stand for. -/
def escaped? (high low : Char) : Option UInt8 := do
  let h ← hexValue? high
  let l ← hexValue? low
  pure (UInt8.ofNat (h * 16 + l))

/--
Resolves percent signs. The bytes of a run of ASCII characters, given latest first, are decoded
together; other code points stand for themselves. The first argument bounds the code points left.
-/
def decodeFrom : Nat → Text.Bytes → List CodePoint → List CodePoint
  | 0, run, _ => decodeRun run
  | _ + 1, run, [] => decodeRun run
  | n + 1, run, .char '%' :: .char high :: .char low :: rest =>
    match escaped? high low with
    | some b => decodeFrom n (b :: run) rest
    | none => decodeFrom n (37 :: run) (.char high :: .char low :: rest)
  | n + 1, run, c :: rest =>
    if c.toNat < 0x80 then decodeFrom n (UInt8.ofNat c.toNat :: run) rest
    else decodeRun run ++ c :: decodeFrom n [] rest
where
  decodeRun (run : Text.Bytes) : List CodePoint :=
    (Text.Utf8.decode run.reverse).map .char

def decode (cs : List CodePoint) : List CodePoint := decodeFrom (cs.length + 1) [] cs

/-- The parts of a URI that say which file it names. -/
structure Parts where
  scheme : Text
  authority : List CodePoint
  path : List CodePoint
  deriving DecidableEq, Repr

/-- The authority of a URI is malformed. -/
inductive AuthorityError where
  | unpairedBracket
  | badHost
  | hiddenDelimiter
  deriving DecidableEq, Repr

def AuthorityError.text : AuthorityError → String
  | .unpairedBracket => "unpaired bracket"
  | .badHost => "malformed address"
  | .hiddenDelimiter => "hidden delimiter"

def isSchemeChar (c : Char) : Bool := c.isAlphanum || c = '+' || c = '-' || c = '.'

/-- The scheme in lower case and the text after its colon; without a scheme all of the text. -/
def cutScheme (cs : List CodePoint) : Text × List CodePoint :=
  match Text.cutAt? (.char ':') cs with
  | some (c :: scheme, rest) =>
    if c.isIn Char.isAlpha && scheme.all (·.isIn isSchemeChar) then
      (.ofChars ((c :: scheme).map fun p => p.toChar.toLower), rest)
    else ("", cs)
  | _ => ("", cs)

/-- Whether a code point ends the authority. -/
def endsAuthority (c : CodePoint) : Bool := c.isIn fun c => c = '/' || c = '?' || c = '#'

/-- The authority after two slashes, and the text after it. -/
def cutAuthority (cs : List CodePoint) : List CodePoint × List CodePoint :=
  match cs with
  | .char '/' :: .char '/' :: rest => rest.span fun c => !endsAuthority c
  | _ => ([], cs)

def isHex (c : Char) : Bool := (hexValue? c).isSome

/-- Four decimal numbers below 256 without leading zeros. -/
def isIPv4 (cs : List Char) : Bool :=
  let octets := Text.splitOn '.' cs
  octets.length = 4 && octets.all fun o =>
    !o.isEmpty && o.all Char.isDigit && o.length ≤ 3 && (o.length = 1 || o.head? != some '0') &&
      o.foldl (fun n d => n * 10 + (d.toNat - 48)) 0 ≤ 255

def isHextet (cs : List Char) : Bool := !cs.isEmpty && cs.all isHex && cs.length ≤ 4

/-- Groups of an address in which an IPv4 address at the end counts as two groups. -/
def hextets? (cs : List Char) : Option (List (List Char)) :=
  let groups := Text.splitOn ':' cs
  match groups.getLast? with
  | some last =>
    if last.contains '.' then
      if isIPv4 last then some (groups.dropLast ++ [['0'], ['0']]) else none
    else some groups
  | none => none

/--
Eight groups of hexadecimal digits; one run of them may be left out between two colons. Only beside
such a gap may the first or the last group be empty.
-/
def isIPv6Groups (groups : List (List Char)) : Bool :=
  let n := groups.length
  let inner := (groups.drop 1).dropLast
  if n < 3 || 9 < n then false
  else if 1 < inner.countP List.isEmpty then false
  else
    match inner.findIdx? List.isEmpty with
    | none => n = 8 && groups.all isHextet
    | some i =>
      let before := groups.take (i + 1)
      let after := groups.drop (i + 2)
      let before := if before = [[]] then [] else before
      let after := if after = [[]] then [] else after
      before.all isHextet && after.all isHextet && before.length + after.length ≤ 7

/-- An IPv6 address, possibly followed by a percent sign and the name of a zone. -/
def isIPv6 (cs : List Char) : Bool :=
  let (address, zoneIsGood) := match Text.cutAt? '%' cs with
    | some (a, zone) => (a, !zone.isEmpty && !zone.contains '%')
    | none => (cs, true)
  let enough := 3 ≤ (Text.splitOn ':' address).length
  zoneIsGood && enough && (hextets? address).any isIPv6Groups

/-- A `v`, a version in hexadecimal digits, a point and at least one more character. -/
def isFutureAddress (cs : List Char) : Bool :=
  match cs with
  | 'v' :: rest =>
    let (version, rest) := rest.span isHex
    !version.isEmpty && rest.head? == some '.' && 2 ≤ rest.length && !rest.contains '\n'
  | _ => false

/-- Characters that are spelled with a delimiter of URIs in their compatibility form. -/
def hiddenDelimiters : List Nat :=
  [0x2047, 0x2048, 0x2049, 0x2100, 0x2101, 0x2105, 0x2106, 0x2A74, 0xFE13, 0xFE16, 0xFE55, 0xFE56,
    0xFE5F, 0xFE6B, 0xFF03, 0xFF0F, 0xFF1A, 0xFF1F, 0xFF20]

/-- What stands after the last occurrence of a separator, or all of it. -/
def afterLast (separator : Char) (cs : List Char) : List Char :=
  (cs.reverse.takeWhile (· ≠ separator)).reverse

/-- The host of an authority; between brackets only a port may stand beside it. -/
def host? (authority : List Char) : Option (List Char) :=
  let place := afterLast '@' authority
  match Text.cutAt? '[' place with
  | none => some (Text.before ':' place)
  | some (_ :: _, _) => none
  | some ([], bracketed) =>
    match Text.cutAt? ']' bracketed with
    | none => some bracketed
    | some (host, port) => if port.isEmpty || port.head? = some ':' then some host else none

/-- Whether a host may stand between brackets. -/
def isBracketedHost (host : List Char) : Bool :=
  if host.head? = some 'v' then isFutureAddress host else isIPv6 host

/-- Brackets come in pairs around an address, and no character hides a delimiter. -/
def checkAuthority (cs : List Char) : Except AuthorityError Unit :=
  if cs.contains '[' != cs.contains ']' then .error .unpairedBracket
  else if cs.contains '[' && !(host? cs).any isBracketedHost then .error .badHost
  else if cs.any fun c => hiddenDelimiters.contains c.toNat then .error .hiddenDelimiter
  else .ok ()

/-- A URI without the controls and blanks before it and the line breaks and tabs in it. -/
def cleaned (cs : List CodePoint) : List CodePoint :=
  (cs.dropWhile (·.isIn (· ≤ ' '))).filter fun c =>
    !c.isIn fun c => c = '\t' || c = '\r' || c = '\n'

def parts (uri : Text) : Except AuthorityError Parts :=
  let (scheme, rest) := cutScheme (cleaned uri.points)
  let (authority, rest) := cutAuthority rest
  match checkAuthority (authority.map CodePoint.toChar) with
  | .error e => .error e
  | .ok () => .ok ⟨scheme, authority, Text.before (.char '?') (Text.before (.char '#') rest)⟩

/-- The scheme of the URIs that name files. -/
def fileScheme : Text := "file"

/-- The name of a file: a URI of another scheme counts as a name itself. -/
def fileName (uri : Text) : Except AuthorityError Text :=
  (parts uri).map fun p => if p.scheme = fileScheme then ⟨decode p.path⟩ else uri

/-- The path a URI names. -/
def toPath (uri : Text) : Except AuthorityError FilePath :=
  (fileName uri).map FilePath.ofText

end VerifierHost.Uri
