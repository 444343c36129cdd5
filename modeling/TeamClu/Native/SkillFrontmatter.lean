import Std.Data.ExtTreeMap
import TeamClu.ForStd.Text

/-!
# The frontmatter of a skill

`skill_frontmatter.rs` of `crates/teamclu-types` parses and writes the frontmatter of a `SKILL.md`, and
`lib/skills/frontmatter.ts` of `packages/app` parses it too.  The two parsers have one shape; they
differ in what `trim` strips, in how a line is split at its key, and in how a quoted text is
unescaped (`Reading`), and the desktop collects the keys in an object.
-/

namespace TeamClu.Skills

/-- `FrontmatterValue`. -/
inductive FrontmatterValue where
  | scalar (text : Str)
  | list (items : List Str)
  deriving DecidableEq

/-- `ParsedFrontmatter`. -/
structure ParsedFrontmatter where
  data : Std.ExtTreeMap Str FrontmatterValue
  body : Str
  hasFrontmatter : Bool

/-- What the two languages do differently with a line. -/
structure Reading where
  /-- The white space that `trim` strips. -/
  isSpace : Char → Bool
  /-- The key of a line, and the trimmed text behind its colon. -/
  splitKey : Str → Option (Str × Str)
  /-- The text between two double quotes, with its escapes undone. -/
  unescape : Str → Str

/-! ## One line -/

/-- `content.replace("\r\n", "\n")`. -/
def normalizeNewlines : Str → Str
  | '\r' :: '\n' :: rest => '\n' :: normalizeNewlines rest
  | c :: rest => c :: normalizeNewlines rest
  | [] => []

/-- `is_fence`: three dashes, and spaces or tabs behind them. -/
def isFence (line : Str) : Bool := line.rdropWhile (fun c => c = ' ' || c = '\t') = "---".toList

/-- `indent_of`: the spaces and tabs at the start. -/
def indentOf (line : Str) : Nat := (line.takeWhile fun c => c = ' ' || c = '\t').length

/-- Characters that start a key. -/
def isKeyStart (c : Char) : Bool := c.isAlpha || c = '_'

/-- Characters of a key. -/
def isKeyChar (c : Char) : Bool := c.isAlphanum || c = '_' || c = '-'

/-- `[A-Za-z_][A-Za-z0-9_-]*`. -/
def isKey : Str → Bool
  | [] => false
  | c :: rest => isKeyStart c && rest.all isKeyChar

/-! ## Reading a region -/

namespace Reading

variable (r : Reading)

/-- `trim`. -/
def trim (s : Str) : Str := (s.rdropWhile r.isSpace).dropWhile r.isSpace

/-- `unquote`.  A text that starts and ends with a quote has two of them once it has two
    characters, in bytes and in code units too. -/
def unquote (raw : Str) : Str :=
  let s := r.trim raw
  if 2 ≤ s.length && s.head? = some '"' && s.getLast? = some '"' then r.unescape s.tail.dropLast
  else if 2 ≤ s.length && s.head? = some '\'' && s.getLast? = some '\'' then s.tail.dropLast
  else s

/-- The lines of a block, dedented by the indent of its first line, and how many there are. -/
def collectBlock (base : Option Nat) : List Str → List Str × Nat
  | [] => ([], 0)
  | line :: rest =>
    if r.trim line = [] then
      let (collected, n) := collectBlock base rest
      ([] :: collected, n + 1)
    else
      let indent := indentOf line
      -- a block whose first line is not indented is an empty block
      if indent < base.getD 1 then ([], 0)
      else
        let base := base.getD indent
        let (collected, n) := collectBlock (some base) rest
        (line.drop base :: collected, n + 1)

/-- `read_block`: the value of the block, and how many lines it takes. -/
def readBlock (fold : Bool) (lines : List Str) : Str × Nat :=
  let (collected, n) := r.collectBlock none lines
  -- trailing blank lines belong to the document, not the value
  let collected := collected.rdropWhile (· = [])
  let value := if fold then [' '].intercalate ((collected.map r.trim).filter (· ≠ []))
    else ['\n'].intercalate collected
  (value, n)

/-- The items of a list on the following lines. -/
def listItems : List Str → List Str
  | [] => []
  | line :: rest =>
    if "- ".toList.isPrefixOf (r.trim line) then r.unquote ((r.trim line).drop 2) :: listItems rest
    else []

/-- The value behind a key, and how many of the following lines it takes. -/
def readValue (text : Str) (rest : List Str) : FrontmatterValue × Nat :=
  if text = "|".toList || text = "|-".toList || text = ">".toList || text = ">-".toList then
    let (value, n) := r.readBlock (text.head? = some '>') rest
    (.scalar value, n)
  else if text = [] then
    match r.listItems rest with
    | [] => (.scalar [], 0)
    | items => (.list items, items.length)
  else if text.head? = some '[' && text.getLast? = some ']' then
    let inner := r.trim text.tail.dropLast
    (.list (if inner = [] then [] else (inner.splitOn ',').map r.unquote), 0)
  else (.scalar (r.unquote text), 0)

/-- The loop over the lines of the region, the first `skip` of which are read already: the keys and
    their values, in the order they are set. -/
def assignments : Nat → List Str → List (Str × FrontmatterValue)
  | _, [] => []
  | skip + 1, _ :: rest => assignments skip rest
  | 0, line :: rest =>
    if r.trim line = [] || (line.dropWhile r.isSpace).head? = some '#' then assignments 0 rest
    else
      match r.splitKey line with
      | none => assignments 0 rest
      | some (key, text) =>
        let (value, n) := r.readValue text rest
        (key, value) :: assignments n rest

end Reading

/-- The lines between the fences, and the lines behind them; an unterminated fence is no
    frontmatter. -/
def cutFrontmatter : List Str → Option (List Str × List Str)
  | [] => none
  | first :: rest =>
    if isFence first then
      (rest.findIdx? isFence).map fun e => (rest.take e, rest.drop (e + 1))
    else none

/-- Both parsers; `collect` makes the data out of the assignments. -/
def parseWith (r : Reading)
    (collect : List (Str × FrontmatterValue) → Std.ExtTreeMap Str FrontmatterValue)
    (content : Str) : ParsedFrontmatter :=
  let normalized := normalizeNewlines content
  match cutFrontmatter (normalized.splitOn '\n') with
  | none => { data := ∅, body := normalized, hasFrontmatter := false }
  | some (region, after) =>
    { data := collect (r.assignments 0 region), body := ['\n'].intercalate after
      hasFrontmatter := true }

/-! ## The daemon's parser -/

/-- The escapes that `unquote` undoes: a quote or a backslash behind a backslash. -/
def unescape : Str → Str
  | '\\' :: c :: rest =>
    if c = '"' || c = '\\' then c :: unescape rest else '\\' :: c :: unescape rest
  | c :: rest => c :: unescape rest
  | [] => []

/-- `split_key`. -/
def splitKey (line : Str) : Option (Str × Str) :=
  match Str.splitOnce ":".toList line with
  | none => none
  | some (key, rest) => if isKey key then some (key, Str.trim rest) else none

/-- How the daemon reads a line. -/
def daemonReading : Reading where
  isSpace := Str.isWhiteSpace
  splitKey := splitKey
  unescape := unescape

/-- Insert the assignments one after the other. -/
def collectMap (assignments : List (Str × FrontmatterValue)) : Std.ExtTreeMap Str FrontmatterValue :=
  assignments.foldl (fun data (key, value) => data.insert key value) ∅

/-- `parse_frontmatter`. -/
def parseFrontmatter (content : Str) : ParsedFrontmatter :=
  parseWith daemonReading collectMap content

/-! ## The desktop's parser -/

namespace Desktop

/-- What `.` does not match. -/
def isLineTerminator (c : Char) : Bool := c = '\n' || c = '\r' || c = '\u2028' || c = '\u2029'

/-- `line.match(/^([A-Za-z_][\w-]*)\s*:(.*)$/)`, and the trimmed text behind the colon. -/
def splitKey (line : Str) : Option (Str × Str) :=
  let key := line.takeWhile isKeyChar
  if isKey key then
    match (line.dropWhile isKeyChar).dropWhile Str.isJsWhiteSpace with
    | ':' :: text => if text.any isLineTerminator then none else some (key, Str.jsTrim text)
    | _ => none
  else none

/-- How the desktop reads a line. -/
def reading : Reading where
  isSpace := Str.isJsWhiteSpace
  splitKey := splitKey
  unescape := unescape

/-- `data[key] = value` for the assignments, one after the other: setting `__proto__` sets the
    prototype, and no property of the object. -/
def collectObject (assignments : List (Str × FrontmatterValue)) :
    Std.ExtTreeMap Str FrontmatterValue :=
  assignments.foldl
    (fun data (key, value) => if key = "__proto__".toList then data else data.insert key value) ∅

/-- `parseFrontmatter`. -/
def parseFrontmatter (content : Str) : ParsedFrontmatter := parseWith reading collectObject content

end Desktop

/-! ## Writing -/

/-- `needs_quoting`. -/
def needsQuoting (value : Str) : Bool :=
  value ≠ Str.trim value ||
    (value.head?.any fun c => "[]\x7b\x7d>|*&!%@`'\"".toList.contains c) ||
    Str.contains value ": ".toList || value.getLast? = some ':'

/-- `value.replace('\\', "\\\\").replace('"', "\\\"")`. -/
def escape (value : Str) : Str :=
  value.flatMap fun c => if c = '\\' || c = '"' then ['\\', c] else [c]

/-- `serialize_scalar`. -/
def serializeScalar (value : Str) : Str :=
  if value.any (· = '\n') then
    "|\n".toList ++ ['\n'].intercalate ((value.splitOn '\n').map fun line =>
      if line = [] then [] else "  ".toList ++ line)
  else if needsQuoting value then '"' :: escape value ++ ['"']
  else value

/-- The lines that `write_frontmatter` emits for one key. -/
def serializeEntry (key : Str) : FrontmatterValue → Str
  | .list [] => key ++ ": []\n".toList
  | .list items =>
    key ++ ":\n".toList ++
      items.flatMap fun item => "  - ".toList ++ serializeScalar item ++ ['\n']
  | .scalar value => key ++ ": ".toList ++ serializeScalar value ++ ['\n']

/-- One update: set the key or remove it. -/
def applyUpdate (data : Std.ExtTreeMap Str FrontmatterValue)
    (update : Str × Option FrontmatterValue) : Std.ExtTreeMap Str FrontmatterValue :=
  match update.2 with
  | some value => data.insert update.1 value
  | none => data.erase update.1

/-- The data of the document with the updates applied. -/
def mergedData (content : Str) (updates : List (Str × Option FrontmatterValue)) :
    Std.ExtTreeMap Str FrontmatterValue :=
  updates.foldl applyUpdate (parseFrontmatter content).data

/-- The keys in the order of emission: those of `keyOrder`, then the others, sorted. -/
def orderedKeys (merged : Std.ExtTreeMap Str FrontmatterValue) (keyOrder : List Str) : List Str :=
  keyOrder.filter merged.contains ++ merged.keys.filter (!keyOrder.contains ·)

/-- The text between the fences. -/
def serializeData (merged : Std.ExtTreeMap Str FrontmatterValue) (keyOrder : List Str) : Str :=
  (orderedKeys merged keyOrder).flatMap fun key =>
    (merged[key]?.map (serializeEntry key)).getD []

/-- `write_frontmatter`. -/
def writeFrontmatter (content : Str) (updates : List (Str × Option FrontmatterValue))
    (keyOrder : List Str) : Str :=
  let parsed := parseFrontmatter content
  let out := "---\n".toList ++ serializeData (mergedData content updates) keyOrder ++ "---".toList
  let body := if parsed.hasFrontmatter then parsed.body else '\n' :: parsed.body
  if body.head? = some '\n' then out ++ body else out ++ '\n' :: body

example : writeFrontmatter "---\nb: x\na: [p, q]\n---\ntext".toList [("c".toList, some (.scalar "y: z".toList))]
    ["b".toList] = "---\nb: x\na:\n  - p\n  - q\nc: \"y: z\"\n---\ntext".toList := by decide

end TeamClu.Skills
