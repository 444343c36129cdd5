import TeamClu.ForStd.Utf8

/-!
# The path of a URL

`new URL("https://host" + typed).pathname` as the URL standard has it: the path state of the parser for
a special scheme that is not `file`, the percent-encoding of the path, and its decoding, which the
parser leaves to the app.
-/

namespace TeamClu.UrlPath

/-- An upper-case hexadecimal digit. -/
def hexDigit (n : Nat) : Char := if n < 10 then Char.ofNat (48 + n) else Char.ofNat (55 + n)

/-- The value of a hexadecimal digit. -/
def hexValue (c : Char) : Option Nat :=
  if '0' ≤ c ∧ c ≤ '9' then some (c.toNat - 48)
  else if 'A' ≤ c ∧ c ≤ 'F' then some (c.toNat - 55)
  else if 'a' ≤ c ∧ c ≤ 'f' then some (c.toNat - 87)
  else none

/-- The path percent-encode set: controls, what is not ASCII, and ten printable characters. -/
def isPathEncoded (c : Char) : Bool :=
  c.toNat ≤ 0x1F || 0x7E < c.toNat ||
    [0x20, 0x22, 0x23, 0x3C, 0x3E, 0x3F, 0x5E, 0x60, 0x7B, 0x7D].contains c.toNat

/-- Percent-encode a byte. -/
def percentByte (b : UInt8) : Str := ['%', hexDigit (b.toNat / 16), hexDigit (b.toNat % 16)]

/-- UTF-8 percent-encode a character of the path. -/
def encodeChar (c : Char) : Str :=
  if isPathEncoded c then (String.utf8EncodeChar c).flatMap percentByte else [c]

/-- A single-dot segment. -/
def isSingleDot (buffer : Str) : Bool :=
  [".".toList, "%2e".toList].contains (Str.jsLowerCase buffer)

/-- A double-dot segment. -/
def isDoubleDot (buffer : Str) : Bool :=
  ["..".toList, ".%2e".toList, "%2e.".toList, "%2e%2e".toList].contains (Str.jsLowerCase buffer)

/-- A segment ends, at a slash or at the end of the path. -/
def closeSegment (path : List Str) (buffer : Str) (slash : Bool) : List Str :=
  if isDoubleDot buffer then
    if slash then path.dropLast else path.dropLast ++ [[]]
  else if isSingleDot buffer then
    if slash then path else path ++ [[]]
  else path ++ [buffer]

/-- The path state: the segments so far and the buffer. -/
def pathState : List Str → Str → Str → List Str
  | path, buffer, [] => closeSegment path buffer false
  | path, buffer, c :: rest =>
    if c = '/' || c = '\\' then pathState (closeSegment path buffer true) [] rest
    else if c = '?' || c = '#' then closeSegment path buffer false
    else pathState path (buffer ++ encodeChar c) rest

/-- What the parser reads of a URL: no control or space at the end, no tab and no line break. -/
def cleaned (typed : Str) : Str :=
  (typed.rdropWhile fun c => c.toNat ≤ 0x20).filter fun c => c ≠ '\t' && c ≠ '\n' && c ≠ '\r'

/-- `new URL("https://host" + typed).pathname`, for what is typed behind the host. -/
def urlPathname (typed : Str) : Str :=
  let path := match cleaned typed with
    | [] => []
    | c :: rest => if c = '/' || c = '\\' then rest else c :: rest
  '/' :: ['/'].intercalate (pathState [] [] path)

/-- Percent-decode: the bytes behind a text. -/
def percentDecode : Str → List UInt8
  | '%' :: a :: b :: rest =>
    match hexValue a, hexValue b with
    | some x, some y => UInt8.ofNat (16 * x + y) :: percentDecode rest
    | _, _ => String.utf8EncodeChar '%' ++ percentDecode (a :: b :: rest)
  | c :: rest => String.utf8EncodeChar c ++ percentDecode rest
  | [] => []

/-- Runs of slashes are one slash. -/
def collapseSlashes : Str → Str
  | '/' :: '/' :: rest => collapseSlashes ('/' :: rest)
  | c :: rest => c :: collapseSlashes rest
  | [] => []

/-- The path that an app may resolve a pathname to: decoded, with single slashes and in lower case. -/
def appPath (lower : Str → Str) (pathname : Str) : Option Str :=
  (Str.fromUtf8 (percentDecode pathname)).map fun decoded => lower (collapseSlashes decoded)

example : urlPathname "/a/%2E%2e/b c/.".toList = "/b%20c/".toList := by decide

end TeamClu.UrlPath
