import TeamClu.ForStd.Text

/-!
# Cron expressions

The parser of `services/fc/src/lib/app-cron-schedule.ts`: five fields, each a comma list of items.

A JavaScript object answers `token in names` also for what it inherits, and two inherited names are
all lower case, `constructor` and `__proto__`.  Looking them up gives a function and an object, so a
value of a field is a number or one of these.  Comparing and adding follow JavaScript: an object is
read as a text, a text that is compared with a number is no number, and adding makes the text longer.
-/

namespace TeamClu.AppCron

/-- What an object of names inherits under a lower-case name. -/
inductive Inherited where
  /-- The function `Object`, under `constructor`. -/
  | object
  /-- The prototype of all objects, under `__proto__`. -/
  | prototype
  deriving DecidableEq, Repr

/-- The name under which it is inherited. -/
def Inherited.key : Inherited → Str
  | .object => "constructor".toList
  | .prototype => "__proto__".toList

/-- A value of a field. -/
inductive CronValue where
  | num (n : Nat)
  | inherited (what : Inherited)
  deriving DecidableEq, Repr

/-- `v > w`: of the texts of the two objects, that of the function is the greater one. -/
def CronValue.gt : CronValue → CronValue → Bool
  | .num n, .num m => n > m
  | .inherited .object, .inherited .prototype => true
  | _, _ => false

/-- The error of a bad expression; its message is in the comment. -/
inductive CronError where
  /-- `cron expression needs 5 fields (minute hour day-of-month month day-of-week), got ${count}` -/
  | fieldCount (count : Nat)
  /-- `cron ${field} field: empty item in "${raw}"` -/
  | emptyItem (field raw : Str)
  /-- `cron ${field} field: "${piece}" has more than one step` -/
  | moreThanOneStep (field piece : Str)
  /-- `cron ${field} field: step "${step}" must be a positive number` -/
  | badStep (field step : Str)
  /-- `cron ${field} field: "${range}" is not a range` -/
  | notRange (field range : Str)
  /-- `cron ${field} field: range ${range} runs backwards` -/
  | backwards (field range : Str)
  /-- `cron ${field} field: "${raw}" is not a number` -/
  | notNumber (field raw : Str)
  /-- `cron ${field} field: ${n} is outside ${min}-${max}` -/
  | outside (field : Str) (n min max : Nat)
  /-- `cron ${field} field: "${raw}" matches nothing` -/
  | matchesNothing (field raw : Str)
  /-- The set grew until the runtime gave up. -/
  | setTooLarge
  deriving DecidableEq, Repr

/-- What is parsed. -/
structure CronFields where
  minute : List CronValue
  hour : List CronValue
  dayOfMonth : List CronValue
  month : List CronValue
  dayOfWeek : List CronValue
  dayOfMonthRestricted : Bool
  dayOfWeekRestricted : Bool
  deriving DecidableEq, Repr

def MONTH_NAMES : List (Str × Nat) :=
  [("jan".toList, 1), ("feb".toList, 2), ("mar".toList, 3), ("apr".toList, 4), ("may".toList, 5),
   ("jun".toList, 6), ("jul".toList, 7), ("aug".toList, 8), ("sep".toList, 9), ("oct".toList, 10),
   ("nov".toList, 11), ("dec".toList, 12)]

def DAY_NAMES : List (Str × Nat) :=
  [("sun".toList, 0), ("mon".toList, 1), ("tue".toList, 2), ("wed".toList, 3), ("thu".toList, 4),
   ("fri".toList, 5), ("sat".toList, 6)]

/-- The bounds of a field and the names of its values. -/
structure FieldSpec where
  name : Str
  min : Nat
  max : Nat
  names : Option (List (Str × Nat)) := none

def minuteSpec : FieldSpec := { name := "minute".toList, min := 0, max := 59 }
def hourSpec : FieldSpec := { name := "hour".toList, min := 0, max := 23 }
def dayOfMonthSpec : FieldSpec := { name := "day-of-month".toList, min := 1, max := 31 }
def monthSpec : FieldSpec := { name := "month".toList, min := 1, max := 12, names := MONTH_NAMES }
def dayOfWeekSpec : FieldSpec := { name := "day-of-week".toList, min := 0, max := 7, names := DAY_NAMES }

/-! ## One item -/

/-- `token in spec.names` and `spec.names[token]`: the names themselves, then what is inherited. -/
def FieldSpec.lookup (spec : FieldSpec) (token : Str) : Option CronValue :=
  spec.names.bind fun names =>
    match names.lookup token with
    | some n => some (.num n)
    | none =>
      if token = Inherited.object.key then some (.inherited .object)
      else if token = Inherited.prototype.key then some (.inherited .prototype)
      else none

/-- `/^\d+$/.test(s)`. -/
def isDigits (s : Str) : Bool := s ≠ [] && s.all Char.isDigit

/-- `Number.parseInt(s, 10)` of digits.  What a large number loses in a double makes no difference to
    the comparisons it is used in. -/
def digitsValue (s : Str) : Nat := Nat.ofDigitChars 10 s 0

/-- `parseValue`. -/
def parseValue (raw : Str) (spec : FieldSpec) : Except CronError CronValue :=
  let token := Str.jsLowerCase (Str.jsTrim raw)
  match spec.lookup token with
  | some v => .ok v
  | none =>
    if !isDigits token then .error (.notNumber spec.name raw)
    else
      let n := digitsValue token
      if n < spec.min ∨ spec.max < n then .error (.outside spec.name n spec.min spec.max)
      else .ok (.num n)

/-- The step of an item, if it has one. -/
def parseStep (spec : FieldSpec) : Option Str → Except CronError Nat
  | none => .ok 1
  | some stepPart =>
    if !isDigits stepPart ∨ digitsValue stepPart < 1 then .error (.badStep spec.name stepPart)
    else .ok (digitsValue stepPart)

/-- The bounds of an item, and whether they restrict the field. -/
def parseRange (spec : FieldSpec) (rangePart : Str) (stepPart : Option Str) :
    Except CronError (CronValue × CronValue × Bool) :=
  if rangePart = ['*'] then .ok (.num spec.min, .num spec.max, stepPart.isSome)
  else if '-' ∈ rangePart then
    match rangePart.splitOn '-' with
    | [a, b] => do
      let lo ← parseValue a spec
      let hi ← parseValue b spec
      if lo.gt hi then .error (.backwards spec.name rangePart)
      else .ok (lo, hi, true)
    | _ => .error (.notRange spec.name rangePart)
  else do
    let lo ← parseValue rangePart spec
    .ok (lo, lo, true)

/-- The numbers from `v` on that the loop of an item adds; one turn of it for each unit of `turns`. -/
def numbersFrom (hi step : Nat) : Nat → Nat → List Nat
  | 0, _ => []
  | turns + 1, v => if v ≤ hi then v :: numbersFrom hi step turns (v + step) else []

/-- `for (let v = lo; v <= hi; v += step)`.  A number and an object are not in order.  An object comes
    once, since with a step behind it its text is greater than it; the texts that start with that of the
    prototype are all less than that of the function, so that loop does not end. -/
def loopValues (lo hi : CronValue) (step : Nat) : Except CronError (List CronValue) :=
  match lo, hi with
  | .num lo, .num hi => .ok ((numbersFrom hi step (hi + 1 - lo) lo).map .num)
  | .inherited what, .inherited what' =>
    if what = what' then .ok [.inherited what] else .error .setTooLarge
  | _, _ => .ok []

/-- One turn of the loop of `parseField`: the values an item adds, and whether it restricts. -/
def parseItem (spec : FieldSpec) (raw part : Str) : Except CronError (List CronValue × Bool) := do
  let piece := Str.jsTrim part
  if piece = [] then .error (.emptyItem spec.name raw)
  else
    match piece.splitOn '/' with
    | rangePart :: rest =>
      if rest.length > 1 then .error (.moreThanOneStep spec.name piece)
      else do
        let step ← parseStep spec rest.head?
        let (lo, hi, restricts) ← parseRange spec rangePart rest.head?
        let added ← loopValues lo hi step
        .ok (added, restricts)
    | [] => .error (.emptyItem spec.name raw)

/-! ## Fields -/

/-- `values.add(v)` for each of the values. -/
def addAll (values added : List CronValue) : List CronValue :=
  added.foldl (fun values v => if v ∈ values then values else values ++ [v]) values

/-- The loop of `parseField` over the items of a field. -/
def parseItems (spec : FieldSpec) (raw : Str) :
    List Str → List CronValue → Bool → Except CronError (List CronValue × Bool)
  | [], values, restricted => .ok (values, restricted)
  | part :: parts, values, restricted => do
    let (added, restricts) ← parseItem spec raw part
    parseItems spec raw parts (addAll values added) (restricted || restricts)

/-- One field into the set of values it admits, plus whether it constrains. -/
def parseField (raw : Str) (spec : FieldSpec) : Except CronError (List CronValue × Bool) := do
  let (values, restricted) ← parseItems spec raw (raw.splitOn ',') [] false
  if values = [] then .error (.matchesNothing spec.name raw)
  else .ok (values, restricted)

/-- One white space for each run of them. -/
def collapse : Str → Str
  | a :: b :: rest =>
    if Str.isJsWhiteSpace a && Str.isJsWhiteSpace b then collapse (b :: rest)
    else a :: collapse (b :: rest)
  | s => s

/-- `split(/\s+/)`. -/
def splitSpaces (s : Str) : List Str := (collapse s).splitOnP Str.isJsWhiteSpace

/-- Fold 7 onto 0. -/
def foldSunday (v : CronValue) : CronValue := if v = .num 7 then .num 0 else v

/-- `parseCronExpression`. -/
def parseCronExpression (expr : Str) : Except CronError CronFields :=
  match splitSpaces (Str.jsTrim expr) with
  | [minuteText, hourText, dayOfMonthText, monthText, dayOfWeekText] => do
    let minute ← parseField minuteText minuteSpec
    let hour ← parseField hourText hourSpec
    let dayOfMonth ← parseField dayOfMonthText dayOfMonthSpec
    let month ← parseField monthText monthSpec
    let dayOfWeek ← parseField dayOfWeekText dayOfWeekSpec
    .ok { minute := minute.1, hour := hour.1, dayOfMonth := dayOfMonth.1, month := month.1,
          dayOfWeek := addAll [] (dayOfWeek.1.map foldSunday),
          dayOfMonthRestricted := dayOfMonth.2, dayOfWeekRestricted := dayOfWeek.2 }
  | fields => .error (.fieldCount fields.length)

example : parseField "FRI-7".toList dayOfWeekSpec = .ok ([.num 5, .num 6, .num 7], true) := by decide

example : (parseCronExpression "0 9 * *".toList) = .error (.fieldCount 4) := by decide

end TeamClu.AppCron
