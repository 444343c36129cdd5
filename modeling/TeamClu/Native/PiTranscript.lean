import TeamClu.ForStd.Text
import TeamClu.ForStd.Redact

/-!
# Redacting a transcript

The export of a pi session masks tokens in every string of every entry and drops large inline blobs
(`redact_value` and what it calls).  Bytes are counted where the code counts bytes; the scanners stop
at the first byte that is not ASCII, so there a byte is a character.

Not modelled: where the session file lies, how its lines are parsed, and the bundle around the entries.
-/

namespace TeamClu.PiTranscript

open Redact

/-- `HUGE_INLINE_MIN`. -/
def HUGE_INLINE_MIN : Nat := 256

/-- A JSON value; the keys of an object stand in its order. -/
inductive Value (N : Type) where
  | null
  | bool (b : Bool)
  | number (n : N)
  | string (s : Str)
  | array (items : List (Value N))
  | object (map : List (Str × Value N))

/-! ## Tokens -/

/-- `HEAD` of `redact_jwt`. -/
def HEAD : Str := ['e', 'y', 'J']

/-- The characters of a segment. -/
def isSegmentChar (c : Char) : Bool := c.isAlphanum || c == '-' || c == '_'

/-- The loop of `jwt_end`: the dots and the bytes it passes. -/
def jwtEndLoop (dots i : Nat) : Str → Nat × Nat
  | [] => (dots, i)
  | c :: cs =>
    if c = '.' then jwtEndLoop (dots + 1) (i + 1) cs
    else if isSegmentChar c then jwtEndLoop dots (i + 1) cs
    else (dots, i)

/-- `jwt_end`: header.payload.sig — require two dots and jwt-ish charset. -/
def jwtEnd (bytes : Str) : Option Nat :=
  let (dots, i) := jwtEndLoop 0 0 bytes
  if dots = 2 ∧ i > 8 then some i else none

/-- What stands for a JWT. -/
def REDACTED : Str := '[' :: "redacted]".toList

/-- `redact_jwt`. -/
def redactJwt (s : Str) : Str := mask HEAD REDACTED jwtEnd s

/-- The head of an API key. -/
def SK : Str := ['s', 'k', '-']

/-- How long the API key is that begins at `sk-`. -/
def skEnd (candidate : Str) : Option Nat :=
  let after := candidate.drop 3
  let n := (after.takeWhile Char.isAlphanum).length
  if n ≥ 8 then some (3 + n) else none

/-- What stands for an API key. -/
def REDACTED_KEY : Str := '[' :: "redacted-key]".toList

/-- `redact_sk_keys`. -/
def redactSkKeys (s : Str) : Str := mask SK REDACTED_KEY skEnd s

/-- `redact_str`. -/
def redactStr (s : Str) : Str := redactSkKeys (redactJwt s)

/-! ## Values -/

/-- `eq_ignore_ascii_case`. -/
def eqIgnoreAsciiCase (a b : Str) : Bool := a.map Char.toLower == b.map Char.toLower

/-- The characters of base64. -/
def isBase64Char (c : Char) : Bool := c.isAlphanum || c == '+' || c == '/' || c == '='

/-- `looks_like_base64`.  The first test compares 22 bytes with the five of `data:`. -/
def looksLikeBase64 (raw : Str) : Bool :=
  let isDataUrl := match Str.sliceTo raw 22 with
    | some prefix_ => eqIgnoreAsciiCase prefix_ "data:".toList && Str.contains raw ";base64,".toList
    | none => false
  if isDataUrl then true
  else
    let compact := raw.filter fun ch => !Str.isWhiteSpace ch
    Str.utf8Len compact ≥ HUGE_INLINE_MIN && compact.all isBase64Char

/-- The keys of an inline blob. -/
def BLOB_KEYS : List Str :=
  ["base64".toList, "binary".toList, "bytes".toList, "data".toList]

/-- `should_drop_inline_blob`. -/
def shouldDropInlineBlob {N : Type} (key : Str) : Value N → Bool
  | .string raw =>
    if Str.utf8Len raw < HUGE_INLINE_MIN then false
    else BLOB_KEYS.contains (key.map Char.toLower) && looksLikeBase64 raw
  | _ => false

mutual

/-- `redact_value`. -/
def redactValue {N : Type} : Value N → Value N
  | .string s => .string (redactStr s)
  | .array items => .array (redactItems items)
  | .object map => .object (redactMap map)
  | .null => .null
  | .bool b => .bool b
  | .number n => .number n

/-- The items of an array. -/
def redactItems {N : Type} : List (Value N) → List (Value N)
  | [] => []
  | v :: items => redactValue v :: redactItems items

/-- The fields of an object, without its inline blobs. -/
def redactMap {N : Type} : List (Str × Value N) → List (Str × Value N)
  | [] => []
  | (k, v) :: map =>
    if shouldDropInlineBlob k v then redactMap map else (k, redactValue v) :: redactMap map

end

end TeamClu.PiTranscript
