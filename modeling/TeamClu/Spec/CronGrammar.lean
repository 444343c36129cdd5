import Mathlib.Data.List.Forall2
import TeamClu.ForStd.Assoc
import TeamClu.ForStd.Lines
import TeamClu.Native.CronSchedule

/-!
# The grammar of cron expressions

An expression is five fields with white space between them, a field is a list of items with commas
between them, and an item is an abstract one (`CronItem`) that some text spells (`Spells`).  The parser
accepts the expressions whose items are all accepted (`parseCronExpression_ok_iff`); the documented ones
among them are those without a step on a single value and without an inherited name.
-/

namespace TeamClu.AppCron

/-! ## Items -/

/-- An item of a field. -/
inductive CronItem where
  | star (step : Option Nat)
  | one (value : CronValue) (step : Option Nat)
  | range (lo hi : CronValue) (step : Option Nat)

/-- The text of a value: a number within the bounds, a name, or a name that every object inherits. -/
def ValueText (spec : FieldSpec) (s : Str) : CronValue → Prop
  | .num n => (isDigits s = true ∧ digitsValue s = n ∧ spec.min ≤ n ∧ n ≤ spec.max) ∨
      ∃ names, spec.names = some names ∧ names.lookup (Str.jsLowerCase s) = some n
  | .inherited what => spec.names.isSome = true ∧ Str.jsLowerCase s = what.key

/-- The text of a step: nothing, or a slash and a number from 1 on. -/
def StepText : Option Nat → Str → Prop
  | none, s => s = []
  | some n, s => ∃ digits, s = '/' :: digits ∧ isDigits digits = true ∧ digitsValue digits = n ∧ 1 ≤ n

/-- The step of an item. -/
def CronItem.step : CronItem → Option Nat
  | .star step | .one _ step | .range _ _ step => step

/-- The text of an item before its step. -/
def RangeText (spec : FieldSpec) : CronItem → Str → Prop
  | .star _, s => s = ['*']
  | .one value _, s => ValueText spec s value
  | .range lo hi _, s => ∃ loText hiText,
      s = loText ++ '-' :: hiText ∧ ValueText spec loText lo ∧ ValueText spec hiText hi

/-- The text of an item. -/
def Spells (spec : FieldSpec) (item : CronItem) (s : Str) : Prop :=
  ∃ rangeText stepText,
    s = rangeText ++ stepText ∧ RangeText spec item rangeText ∧ StepText item.step stepText

namespace CronItem

/-- The documented items: `*`, `a`, `a-b`, `*/n` and `a-b/n` of numbers or names. -/
def Documented : CronItem → Prop
  | star _ => True
  | one (.num _) none => True
  | range (.num lo) (.num hi) _ => lo ≤ hi
  | _ => False

/-- A step on a single value, or an inherited name. -/
def Slips : CronItem → Prop
  | star _ => False
  | one (.num _) step => step.isSome = true
  | range (.num _) (.num _) _ => False
  | _ => True

/-- The step, 1 if there is none. -/
def stepValue (item : CronItem) : Nat := item.step.getD 1

/-- The numbers that a documented item denotes. -/
def Denotes (spec : FieldSpec) (item : CronItem) (n : Nat) : Prop :=
  match item with
  | star _ => spec.min ≤ n ∧ n ≤ spec.max ∧ item.stepValue ∣ n - spec.min
  | one value _ => value = .num n
  | range (.num lo) (.num hi) _ => lo ≤ n ∧ n ≤ hi ∧ item.stepValue ∣ n - lo
  | range _ _ _ => False

/-- The items that the parser lets through: a range does not run backwards and its loop ends. -/
def Accepted : CronItem → Prop
  | star _ | one _ _ => True
  | range lo hi _ =>
    lo.gt hi = false ∧ ¬ (lo = .inherited .prototype ∧ hi = .inherited .object)

/-- The values that an accepted item adds. -/
def values (spec : FieldSpec) (item : CronItem) : List CronValue :=
  match item with
  | star _ => (numbersFrom spec.max item.stepValue (spec.max + 1 - spec.min) spec.min).map .num
  | one value _ => [value]
  | range (.num lo) (.num hi) _ => (numbersFrom hi item.stepValue (hi + 1 - lo) lo).map .num
  | range (.inherited what) (.inherited _) _ => [.inherited what]
  | range _ _ _ => []

/-- Whether the item restricts its field: all but a bare star do. -/
def restricts : CronItem → Bool
  | star none => false
  | _ => true

/-- An item is documented exactly when it is accepted and does not slip. -/
theorem documented_iff (item : CronItem) : item.Documented ↔ item.Accepted ∧ ¬ item.Slips := by
  match item with
  | star _ => simp [Documented, Accepted, Slips]
  | one (.num _) none => simp [Documented, Accepted, Slips]
  | one (.num _) (some _) => simp [Documented, Accepted, Slips]
  | one (.inherited _) _ => simp [Documented, Accepted, Slips]
  | range (.num lo) (.num hi) _ => simp [Documented, Accepted, Slips, CronValue.gt]
  | range (.num _) (.inherited _) _ => simp [Documented, Accepted, Slips]
  | range (.inherited _) _ _ => simp [Documented, Accepted, Slips]

end CronItem

/-! ## Fields and expressions -/

/-- The items of a field, with commas between them. -/
def FieldItems (spec : FieldSpec) (text : Str) (items : List CronItem) : Prop :=
  List.Forall₂ (Spells spec) items (text.splitOn ',')

/-- Texts without white space, with white space between them. -/
inductive Separated : Str → List Str → Prop
  | one {field : Str} : field ≠ [] → (∀ c ∈ field, Str.isJsWhiteSpace c = false) →
      Separated field [field]
  | cons {field gap rest : Str} {fields : List Str} : field ≠ [] →
      (∀ c ∈ field, Str.isJsWhiteSpace c = false) → gap ≠ [] →
      (∀ c ∈ gap, Str.isJsWhiteSpace c = true) → Separated rest fields →
      Separated (field ++ (gap ++ rest)) (field :: fields)

/-- The items of the five fields. -/
structure CronItems where
  minute : List CronItem
  hour : List CronItem
  dayOfMonth : List CronItem
  month : List CronItem
  dayOfWeek : List CronItem

/-- All items. -/
def CronItems.all (items : CronItems) : List CronItem :=
  items.minute ++ items.hour ++ items.dayOfMonth ++ items.month ++ items.dayOfWeek

/-- The trimmed expression is five fields with these items. -/
def ExprItems (expr : Str) (items : CronItems) : Prop :=
  ∃ minute hour dayOfMonth month dayOfWeek,
    Separated (Str.jsTrim expr) [minute, hour, dayOfMonth, month, dayOfWeek] ∧
    FieldItems minuteSpec minute items.minute ∧ FieldItems hourSpec hour items.hour ∧
    FieldItems dayOfMonthSpec dayOfMonth items.dayOfMonth ∧ FieldItems monthSpec month items.month ∧
    FieldItems dayOfWeekSpec dayOfWeek items.dayOfWeek

/-- The values of a field are the numbers that its items denote, each through `fold`. -/
def IsUnion (spec : FieldSpec) (items : List CronItem) (fold : Nat → Nat) (values : List CronValue) :
    Prop :=
  ∀ v, v ∈ values ↔ ∃ item ∈ items, ∃ n, item.Denotes spec n ∧ v = .num (fold n)

/-- The parsed fields are what the items say. -/
structure Means (items : CronItems) (fields : CronFields) : Prop where
  minute : IsUnion minuteSpec items.minute id fields.minute
  hour : IsUnion hourSpec items.hour id fields.hour
  dayOfMonth : IsUnion dayOfMonthSpec items.dayOfMonth id fields.dayOfMonth
  month : IsUnion monthSpec items.month id fields.month
  dayOfWeek : IsUnion dayOfWeekSpec items.dayOfWeek (fun n => if n = 7 then 0 else n) fields.dayOfWeek
  dayOfMonthRestricted :
    fields.dayOfMonthRestricted = false ↔ ∀ item ∈ items.dayOfMonth, item = .star none
  dayOfWeekRestricted : fields.dayOfWeekRestricted = false ↔ ∀ item ∈ items.dayOfWeek, item = .star none

/-- The parser accepts the expression exactly when it is documented, and then reads what it says. -/
def MeetsGrammar (expr : Str) : Prop :=
  ((∃ fields, parseCronExpression expr = .ok fields) ↔
      ∃ items, ExprItems expr items ∧ ∀ item ∈ items.all, item.Documented) ∧
    ∀ fields items, parseCronExpression expr = .ok fields → ExprItems expr items →
      (∀ item ∈ items.all, item.Documented) → Means items fields

/-- What the parser lets through: every item is accepted, and each field has one that adds something. -/
structure CronItems.Accepted (items : CronItems) : Prop where
  each : ∀ item ∈ items.all, item.Accepted
  minute : ∃ item ∈ items.minute, item.values minuteSpec ≠ []
  hour : ∃ item ∈ items.hour, item.values hourSpec ≠ []
  dayOfMonth : ∃ item ∈ items.dayOfMonth, item.values dayOfMonthSpec ≠ []
  month : ∃ item ∈ items.month, item.values monthSpec ≠ []
  dayOfWeek : ∃ item ∈ items.dayOfWeek, item.values dayOfWeekSpec ≠ []

/-! ## Texts of values -/

/-- No other character becomes a digit in lower case, and a digit stays what it is. -/
private theorem lower_digit (c : Char) :
    (if c = '\u212A' then 'k' else c.toLower).isDigit = c.isDigit ∧
      (c.isDigit = true → (if c = '\u212A' then 'k' else c.toLower) = c) := by
  have hcapitals : ∀ n ∈ List.range' 65 26, (Char.ofNat n).toLower.isDigit = false ∧
      (Char.ofNat n).isDigit = false := by decide
  by_cases hkelvin : c = '\u212A'
  · rw [hkelvin]
    decide
  rw [if_neg hkelvin]
  by_cases hcapital : c.val ≥ 'A'.val ∧ c.val ≤ 'Z'.val
  · have hlow : 65 ≤ c.toNat := hcapital.1
    have hhigh : c.toNat ≤ 90 := hcapital.2
    have hc := hcapitals c.toNat (by simp; omega)
    rw [Char.ofNat_toNat] at hc
    rw [hc.1, hc.2]
    exact ⟨rfl, fun h => (by cases h)⟩
  · have hsame : c.toLower = c := by
      unfold Char.toLower
      rw [dif_neg hcapital]
    rw [hsame]
    exact ⟨rfl, fun _ => rfl⟩

private theorem isDigits_jsLowerCase (s : Str) : isDigits (Str.jsLowerCase s) = isDigits s := by
  unfold isDigits Str.jsLowerCase
  rw [List.all_map]
  congr 1
  · simp
  · exact List.all_congr rfl fun c => (lower_digit c).1

private theorem jsLowerCase_of_isDigits {s : Str} (h : isDigits s = true) : Str.jsLowerCase s = s := by
  simp only [isDigits, Bool.and_eq_true, List.all_eq_true] at h
  exact List.map_congr_left (fun c hc => (lower_digit c).2 (h.2 c hc)) |>.trans (List.map_id s)

/-- Text without white space is not trimmed. -/
private theorem jsTrim_eq_self {s : Str} (h : ∀ c ∈ s, Str.isJsWhiteSpace c = false) :
    Str.jsTrim s = s := by
  have hright : s.rdropWhile Str.isJsWhiteSpace = s := by
    unfold List.rdropWhile
    rw [List.dropWhile_eq_self_iff.mpr, List.reverse_reverse]
    intro hlen
    rw [h _ (List.mem_reverse.mp (List.getElem_mem hlen))]
    exact Bool.false_ne_true
  unfold Str.jsTrim
  rw [hright, List.dropWhile_eq_self_iff]
  intro hlen
  simp [h _ (List.getElem_mem hlen)]

/-- The names of a field are three small letters each. -/
def PlainNames (spec : FieldSpec) : Prop :=
  ∀ names, spec.names = some names → ∀ entry ∈ names,
    entry.1.length = 3 ∧ entry.1.all Char.isLower = true

/-- What is looked up is one of the names, or inherited. -/
private theorem lookup_eq_some_iff {spec : FieldSpec} (hnames : PlainNames spec) (s : Str)
    (v : CronValue) :
    spec.lookup s = some v ↔
      match v with
      | .num n => ∃ names, spec.names = some names ∧ names.lookup s = some n
      | .inherited what => spec.names.isSome = true ∧ s = what.key := by
  unfold FieldSpec.lookup
  cases hspec : spec.names with
  | none => cases v <;> simp
  | some names =>
    -- the inherited names are longer than the entries
    have hinherited : ∀ what : Inherited, names.lookup what.key = none := by
      intro what
      cases hfound : names.lookup what.key with
      | none => rfl
      | some n =>
        have hlen : what.key.length = 3 := (hnames names hspec _ (Assoc.mem_of_lookup hfound)).1
        cases what <;> exact absurd hlen (by decide)
    simp only [Option.bind_some, Option.isSome_some, true_and, Option.some.injEq, exists_eq_left']
    cases hfound : names.lookup s with
    | some n =>
      cases v with
      | num m => simp
      | inherited what =>
        simp only [Option.some.injEq, reduceCtorEq, false_iff]
        rintro rfl
        rw [hinherited] at hfound
        cases hfound
    | none =>
      have hne : Inherited.prototype.key ≠ Inherited.object.key := by decide
      by_cases hobject : s = Inherited.object.key
      · subst hobject
        cases v with
        | num m => simp
        | inherited what => cases what <;> simp [hne.symm]
      · by_cases hprototype : s = Inherited.prototype.key
        · subst hprototype
          cases v with
          | num m => simp [hne]
          | inherited what => cases what <;> simp [hne]
        · cases v with
          | num m => simp [hobject, hprototype]
          | inherited what => cases what <;> simp [hobject, hprototype]

/-- An inherited name has no digit. -/
private theorem Inherited.digitless_key (what : Inherited) :
    what.key.all (fun c => !c.isDigit) = true := by
  cases what <;> decide

/-- An inherited name is of small letters and underscores. -/
private theorem Inherited.clean_key (what : Inherited) : what.key ≠ [] ∧
    what.key.all (fun c => c.isDigit || c.isLower || c == '_') = true := by
  cases what <;> decide

/-- Digits are no name. -/
private theorem lookup_digits {spec : FieldSpec} (hnames : PlainNames spec) {s : Str}
    (hs : isDigits s = true) : spec.lookup s = none := by
  cases hfound : spec.lookup s with
  | none => rfl
  | some v =>
    simp only [isDigits, Bool.and_eq_true, decide_eq_true_eq, List.all_eq_true] at hs
    obtain ⟨c, hc⟩ := List.exists_mem_of_ne_nil s hs.1
    have hdigit := hs.2 c hc
    have hv := (lookup_eq_some_iff hnames s v).mp hfound
    cases v with
    | num n =>
      obtain ⟨names, hspec, hlookup⟩ := hv
      have hlower := List.all_eq_true.mp (hnames names hspec _ (Assoc.mem_of_lookup hlookup)).2 c hc
      have hsmall : 'a'.val ≤ c.val := of_decide_eq_true (Bool.and_eq_true_iff.mp hlower).1
      simp only [Char.isDigit, Bool.and_eq_true, decide_eq_true_eq] at hdigit
      exact absurd (UInt32.le_trans hsmall hdigit.2) (by decide)
    | inherited what =>
      obtain ⟨-, rfl⟩ := hv
      have hnodigit := List.all_eq_true.mp (Inherited.digitless_key what) c hc
      rw [hdigit] at hnodigit
      cases hnodigit

/-- `parseValue` reads the texts of values. -/
theorem parseValue_ok_iff {spec : FieldSpec} (hnames : PlainNames spec) {s : Str}
    (hs : ∀ c ∈ s, Str.isJsWhiteSpace c = false) (v : CronValue) :
    parseValue s spec = .ok v ↔ ValueText spec s v := by
  unfold parseValue
  rw [jsTrim_eq_self hs]
  simp only
  by_cases hdigits : isDigits s = true
  · rw [jsLowerCase_of_isDigits hdigits, lookup_digits hnames hdigits]
    have hnone := lookup_digits hnames hdigits
    cases v with
    | num n =>
      have hno : ¬ ∃ names, spec.names = some names ∧ names.lookup s = some n := fun h => by
        rw [(lookup_eq_some_iff hnames s (.num n)).mpr h] at hnone
        cases hnone
      simp only [ValueText, hdigits, jsLowerCase_of_isDigits hdigits, true_and, Bool.not_true,
        Bool.false_eq_true, if_false, hno, or_false]
      split
      · next hout =>
        refine iff_of_false (fun h => by cases h) (fun h => ?_)
        omega
      · next hin =>
        simp only [Except.ok.injEq, CronValue.num.injEq]
        omega
    | inherited what =>
      refine iff_of_false (fun h => ?_) (fun h => ?_)
      · simp only [hdigits, Bool.not_true, Bool.false_eq_true, if_false] at h
        split at h
        · cases h
        · cases h
      · rw [ValueText, jsLowerCase_of_isDigits hdigits] at h
        rw [(lookup_eq_some_iff hnames s (.inherited what)).mpr h] at hnone
        cases hnone
  · have hlower : ¬ isDigits (Str.jsLowerCase s) = true := by rwa [isDigits_jsLowerCase]
    have hvalue : ValueText spec s v ↔ spec.lookup (Str.jsLowerCase s) = some v := by
      rw [lookup_eq_some_iff hnames]
      cases v with
      | num n => simp [ValueText, hdigits]
      | inherited what => rfl
    rw [hvalue]
    cases hfound : spec.lookup (Str.jsLowerCase s) with
    | none => simp [hlower]
    | some w => simp

/-- What lower case leaves to the text of a value: digits, small letters and underscores. -/
private theorem lower_of_valueText {spec : FieldSpec} (hnames : PlainNames spec) {s : Str} {v : CronValue}
    (h : ValueText spec s v) : s ≠ [] ∧
      ∀ c ∈ Str.jsLowerCase s, c.isDigit = true ∨ c.isLower = true ∨ c = '_' := by
  have hdigits : ∀ {s : Str}, isDigits s = true → s ≠ [] ∧
      ∀ c ∈ Str.jsLowerCase s, c.isDigit = true ∨ c.isLower = true ∨ c = '_' := by
    intro s hs
    rw [jsLowerCase_of_isDigits hs]
    simp only [isDigits, Bool.and_eq_true, decide_eq_true_eq, List.all_eq_true] at hs
    exact ⟨hs.1, fun c hc => Or.inl (hs.2 c hc)⟩
  have hne : ∀ {s : Str}, Str.jsLowerCase s ≠ [] → s ≠ [] := by
    rintro s h rfl
    exact h rfl
  cases v with
  | num n =>
    rcases h with ⟨hs, -⟩ | ⟨names, hspec, hlookup⟩
    · exact hdigits hs
    · obtain ⟨hlen, hlower⟩ := hnames names hspec _ (Assoc.mem_of_lookup hlookup)
      refine ⟨hne fun hnil => ?_, fun c hc => Or.inr (Or.inl (List.all_eq_true.mp hlower c hc))⟩
      rw [hnil] at hlen
      cases hlen
  | inherited what =>
    obtain ⟨-, hkey⟩ := h
    obtain ⟨hnonempty, hclean⟩ := Inherited.clean_key what
    rw [hkey]
    refine ⟨hne (hkey ▸ hnonempty), fun c hc => ?_⟩
    simpa [or_assoc] using List.all_eq_true.mp hclean c hc

/-- The text of a value has none of the signs that structure an item. -/
private theorem sign_notMem {spec : FieldSpec} (hnames : PlainNames spec) {s : Str} {v : CronValue}
    (h : ValueText spec s v) : '/' ∉ s ∧ '-' ∉ s ∧ '*' ∉ s := by
  have hclean := (lower_of_valueText hnames h).2
  have hsign : ∀ sign, (if sign = '\u212A' then 'k' else sign.toLower) = sign →
      ¬ (sign.isDigit = true ∨ sign.isLower = true ∨ sign = '_') → sign ∉ s := by
    intro sign hsame hno hmem
    exact hno (hclean sign (List.mem_map.mpr ⟨sign, hmem, hsame⟩))
  exact ⟨hsign _ (by decide) (by decide), hsign _ (by decide) (by decide), hsign _ (by decide) (by decide)⟩

/-! ## Reading an item -/

/-- The parts behind the first slash of an item. -/
private def StepRest : Option Nat → List Str → Prop
  | none, rest => rest = []
  | some n, rest => ∃ digits, rest = [digits] ∧ isDigits digits = true ∧ digitsValue digits = n ∧ 1 ≤ n

private theorem slash_notMem_digits {s : Str} (h : isDigits s = true) : '/' ∉ s := by
  intro hmem
  simp only [isDigits, Bool.and_eq_true, List.all_eq_true] at h
  exact absurd (h.2 _ hmem) (by decide)

private theorem slash_notMem_rangeText {spec : FieldSpec} (hnames : PlainNames spec) {item : CronItem}
    {s : Str} (h : RangeText spec item s) : '/' ∉ s := by
  cases item with
  | star step =>
    rw [RangeText] at h
    rw [h]
    decide
  | one value step => exact (sign_notMem hnames h).1
  | range lo hi step =>
    obtain ⟨loText, hiText, rfl, hlo, hhi⟩ := h
    rw [List.mem_append, List.mem_cons, not_or, not_or]
    exact ⟨(sign_notMem hnames hlo).1, by decide, (sign_notMem hnames hhi).1⟩

/-- An item is read from the parts between its slashes. -/
private theorem spells_iff {spec : FieldSpec} (hnames : PlainNames spec) (item : CronItem) (s : Str) :
    Spells spec item s ↔ ∃ rangeText rest, s.splitOn '/' = rangeText :: rest ∧
      RangeText spec item rangeText ∧ StepRest item.step rest := by
  constructor
  · rintro ⟨rangeText, stepText, rfl, hrange, hstep⟩
    have hslash := slash_notMem_rangeText hnames hrange
    cases hitem : item.step with
    | none =>
      rw [hitem] at hstep
      obtain rfl : stepText = [] := hstep
      exact ⟨rangeText, [], by rw [List.append_nil, List.splitOn_eq_singleton hslash], hrange, rfl⟩
    | some n =>
      rw [hitem] at hstep
      obtain ⟨digits, rfl, hdigits, hvalue, hpos⟩ := hstep
      refine ⟨rangeText, [digits], ?_, hrange, digits, rfl, hdigits, hvalue, hpos⟩
      rw [List.splitOn_append_cons_self_of_not_mem hslash,
        List.splitOn_eq_singleton (slash_notMem_digits hdigits)]
  · rintro ⟨rangeText, rest, hsplit, hrange, hrest⟩
    have hs : ['/'].intercalate (rangeText :: rest) = s := by rw [← hsplit, List.intercalate_splitOn]
    cases hitem : item.step with
    | none =>
      rw [hitem] at hrest
      obtain rfl : rest = [] := hrest
      exact ⟨rangeText, [], by simpa using hs.symm, hrange, by rw [hitem]; rfl⟩
    | some n =>
      rw [hitem] at hrest
      obtain ⟨digits, rfl, hdigits, hvalue, hpos⟩ := hrest
      refine ⟨rangeText, '/' :: digits, ?_, hrange, ?_⟩
      · rw [← hs]
        simp [List.intercalate_cons_cons]
      · rw [hitem]
        exact ⟨digits, rfl, hdigits, hvalue, hpos⟩

/-- The texts of two values are the same only for one value. -/
private theorem valueText_unique {spec : FieldSpec} (hnames : PlainNames spec) {s : Str}
    (hs : ∀ c ∈ s, Str.isJsWhiteSpace c = false) {v w : CronValue} (hv : ValueText spec s v)
    (hw : ValueText spec s w) : v = w := by
  have hread := (parseValue_ok_iff hnames hs v).mpr hv
  rw [(parseValue_ok_iff hnames hs w).mpr hw] at hread
  exact (Except.ok.inj hread).symm

/-- The text before the step is that of one item with this step. -/
private theorem rangeText_unique {spec : FieldSpec} (hnames : PlainNames spec) {s : Str}
    (hs : ∀ c ∈ s, Str.isJsWhiteSpace c = false) {item item' : CronItem}
    (hstep : item.step = item'.step) (h : RangeText spec item s) (h' : RangeText spec item' s) :
    item = item' := by
  -- a star is no value, a value has no dash
  have hstar : ∀ {v}, s = ['*'] → ¬ ValueText spec s v := by
    intro v heq hv
    rw [heq] at hv
    exact (sign_notMem hnames hv).2.2 List.mem_cons_self
  have hrange : ∀ {lo hi step}, RangeText spec (.range lo hi step) s → '-' ∈ s := by
    rintro lo hi step ⟨loText, hiText, rfl, -⟩
    simp
  have hdash : ∀ {v}, '-' ∈ s → ¬ ValueText spec s v := fun hmem hv => (sign_notMem hnames hv).2.1 hmem
  cases item with
  | star step =>
    cases item' with
    | star step' => exact congrArg _ hstep
    | one value step' => exact absurd h' (hstar h)
    | range lo hi step' =>
      have hmem := hrange h'
      rw [show s = ['*'] from h] at hmem
      exact absurd hmem (by decide)
  | one value step =>
    cases item' with
    | star step' => exact absurd h (hstar h')
    | one value' step' =>
      obtain rfl := valueText_unique hnames hs h h'
      exact congrArg _ hstep
    | range lo hi step' => exact absurd h (hdash (hrange h'))
  | range lo hi step =>
    cases item' with
    | star step' =>
      have hmem := hrange h
      rw [show s = ['*'] from h'] at hmem
      exact absurd hmem (by decide)
    | one value step' => exact absurd h' (hdash (hrange h))
    | range lo' hi' step' =>
      obtain ⟨loText, hiText, rfl, hlo, hhi⟩ := h
      obtain ⟨loText', hiText', heq, hlo', hhi'⟩ := h'
      obtain ⟨rfl, rfl⟩ := Lines.append_sep_inj (sign_notMem hnames hlo).2.1
        (sign_notMem hnames hlo').2.1 heq
      obtain rfl := valueText_unique hnames (fun c hc => hs c (List.mem_append_left _ hc)) hlo hlo'
      obtain rfl := valueText_unique hnames
        (fun c hc => hs c (List.mem_append_right _ (List.mem_cons_of_mem _ hc))) hhi hhi'
      exact congrArg _ hstep

/-- A text is that of one item. -/
theorem spells_unique {spec : FieldSpec} (hnames : PlainNames spec) {s : Str}
    (hs : ∀ c ∈ s, Str.isJsWhiteSpace c = false) {item item' : CronItem} (h : Spells spec item s)
    (h' : Spells spec item' s) : item = item' := by
  obtain ⟨rangeText, rest, hsplit, hrange, hrest⟩ := (spells_iff hnames item s).mp h
  obtain ⟨rangeText', rest', hsplit', hrange', hrest'⟩ := (spells_iff hnames item' s).mp h'
  rw [hsplit] at hsplit'
  obtain ⟨rfl, rfl⟩ := List.cons.inj hsplit'
  have hstep : item.step = item'.step := by
    cases hitem : item.step with
    | none =>
      rw [hitem] at hrest
      obtain rfl : rest = [] := hrest
      cases hitem' : item'.step with
      | none => rfl
      | some n =>
        rw [hitem'] at hrest'
        obtain ⟨digits, hnil, -⟩ := hrest'
        cases hnil
    | some n =>
      rw [hitem] at hrest
      obtain ⟨digits, rfl, -, rfl, -⟩ := hrest
      cases hitem' : item'.step with
      | none =>
        rw [hitem'] at hrest'
        cases hrest'
      | some m =>
        rw [hitem'] at hrest'
        obtain ⟨digits', heq, -, rfl, -⟩ := hrest'
        rw [(List.cons.inj heq).1]
  have hclean : ∀ c ∈ rangeText, Str.isJsWhiteSpace c = false := fun c hc =>
    hs c (Lines.mem_of_mem_splitOn (hsplit ▸ List.mem_cons_self) hc)
  exact rangeText_unique hnames hclean hstep hrange hrange'

/-- A computation that continues another one succeeds when both do. -/
private theorem bind_eq_ok {α β : Type} {x : Except CronError α} {f : α → Except CronError β} {b : β} :
    (x >>= f) = .ok b ↔ ∃ a, x = .ok a ∧ f a = .ok b := by
  cases x with
  | error e => exact ⟨fun h => (by cases h), fun ⟨_, h, _⟩ => (by cases h)⟩
  | ok a =>
    refine ⟨fun h => ⟨a, rfl, h⟩, ?_⟩
    rintro ⟨a', ha, h⟩
    obtain rfl := Except.ok.inj ha
    exact h

/-- `parseStep` reads the parts behind the first slash, unless there are two. -/
private theorem parseStep_ok_iff (spec : FieldSpec) {rest : List Str} (hrest : rest.length ≤ 1)
    (n : Nat) : parseStep spec rest.head? = .ok n ↔ ∃ step, StepRest step rest ∧ step.getD 1 = n := by
  match rest, hrest with
  | [], _ =>
    refine ⟨fun h => ⟨none, rfl, Except.ok.inj h⟩, ?_⟩
    rintro ⟨step, hstep, rfl⟩
    cases step with
    | none => rfl
    | some m =>
      obtain ⟨digits, hnil, -⟩ := hstep
      cases hnil
  | [digits], _ =>
    rw [List.head?_cons, parseStep]
    split
    · next hbad =>
      refine iff_of_false (fun h => by cases h) ?_
      rintro ⟨step, hstep, -⟩
      cases step with
      | none => cases hstep
      | some m =>
        obtain ⟨digits', heq, hdigits, rfl, hpos⟩ := hstep
        obtain rfl := (List.cons.inj heq).1
        rw [hdigits] at hbad
        simp only [Bool.not_true, Bool.false_eq_true, false_or] at hbad
        omega
    · next hgood =>
      simp only [Bool.not_eq_true', not_or, Bool.not_eq_false, Nat.not_lt] at hgood
      refine ⟨fun h => ⟨some n, ⟨digits, rfl, hgood.1, Except.ok.inj h, ?_⟩, rfl⟩, ?_⟩
      · rw [← Except.ok.inj h]
        exact hgood.2
      · rintro ⟨step, hstep, rfl⟩
        cases step with
        | none => cases hstep
        | some m =>
          obtain ⟨digits', heq, hdigits, rfl, hpos⟩ := hstep
          obtain rfl := (List.cons.inj heq).1
          rfl

/-- The bounds of an item. -/
private def CronItem.bounds (spec : FieldSpec) : CronItem → CronValue × CronValue
  | .star _ => (.num spec.min, .num spec.max)
  | .one value _ => (value, value)
  | .range lo hi _ => (lo, hi)

/-- A range that does not run backwards. -/
private def CronItem.Forward : CronItem → Prop
  | .range lo hi _ => lo.gt hi = false
  | _ => True

/-- `parseRange` reads the text before the step. -/
private theorem parseRange_ok_iff {spec : FieldSpec} (hnames : PlainNames spec) {s : Str}
    (hs : ∀ c ∈ s, Str.isJsWhiteSpace c = false) {stepPart : Option Str} {step : Option Nat}
    (hstep : stepPart.isSome = step.isSome) (bounds : CronValue × CronValue) (restricts : Bool) :
    parseRange spec s stepPart = .ok (bounds.1, bounds.2, restricts) ↔
      ∃ item, item.step = step ∧ RangeText spec item s ∧ item.Forward ∧
        item.bounds spec = bounds ∧ item.restricts = restricts := by
  unfold parseRange
  split
  · next hstar =>
    -- a star
    have hrestricts : (CronItem.star step).restricts = stepPart.isSome := by
      rw [hstep]
      cases step <;> rfl
    constructor
    · intro h
      simp only [Except.ok.injEq, Prod.mk.injEq] at h
      obtain ⟨hlo, hhi, hr⟩ := h
      exact ⟨.star step, rfl, hstar, trivial, Prod.ext hlo hhi, hrestricts.trans hr⟩
    · rintro ⟨item, hitem, hrange, -, rfl, rfl⟩
      obtain rfl : item = .star step := rangeText_unique hnames hs hitem hrange hstar
      rw [hrestricts]
      rfl
  · next hstar =>
    have hone : ∀ {v}, ValueText spec s v → '-' ∉ s := fun h => (sign_notMem hnames h).2.1
    split
    · next hdash =>
      -- what is spelled is a range, cut at its only dash
      have hcut : ∀ {item}, RangeText spec item s → ∃ lo hi step' loText hiText,
          item = .range lo hi step' ∧ s.splitOn '-' = [loText, hiText] ∧
          ValueText spec loText lo ∧ ValueText spec hiText hi := by
        intro item hrange
        cases item with
        | star step' => exact absurd hrange hstar
        | one value step' => exact absurd hdash (hone hrange)
        | range lo hi step' =>
          obtain ⟨loText, hiText, rfl, hlo, hhi⟩ := hrange
          refine ⟨lo, hi, step', loText, hiText, rfl, ?_, hlo, hhi⟩
          rw [List.splitOn_append_cons_self_of_not_mem (sign_notMem hnames hlo).2.1,
            List.splitOn_eq_singleton (sign_notMem hnames hhi).2.1]
      split
      · next a b hsplit =>
        have ha : ∀ c ∈ a, Str.isJsWhiteSpace c = false := fun c hc =>
          hs c (Lines.mem_of_mem_splitOn (hsplit ▸ List.mem_cons_self) hc)
        have hb : ∀ c ∈ b, Str.isJsWhiteSpace c = false := fun c hc =>
          hs c (Lines.mem_of_mem_splitOn (hsplit ▸ List.mem_cons_of_mem a List.mem_cons_self) hc)
        constructor
        · intro h
          obtain ⟨lo, hlo, h⟩ := bind_eq_ok.mp h
          obtain ⟨hi, hhi, h⟩ := bind_eq_ok.mp h
          split at h
          · cases h
          · next hforward =>
            simp only [Except.ok.injEq, Prod.mk.injEq] at h
            obtain ⟨hbounds, hbounds', hr⟩ := h
            refine ⟨.range lo hi step, rfl, ⟨a, b, ?_, (parseValue_ok_iff hnames ha lo).mp hlo,
              (parseValue_ok_iff hnames hb hi).mp hhi⟩, by simpa [CronItem.Forward] using hforward,
              Prod.ext hbounds hbounds', hr⟩
            have hs : ['-'].intercalate (s.splitOn '-') = s := List.intercalate_splitOn '-'
            rw [← hs, hsplit]
            simp [List.intercalate_cons_cons]
        · rintro ⟨item, hitem, hrange, hforward, rfl, rfl⟩
          obtain ⟨lo, hi, step', loText, hiText, rfl, hsplit', hlo, hhi⟩ := hcut hrange
          rw [hsplit] at hsplit'
          obtain ⟨rfl, htail⟩ := List.cons.inj hsplit'
          obtain ⟨rfl, -⟩ := List.cons.inj htail
          refine bind_eq_ok.mpr ⟨lo, (parseValue_ok_iff hnames ha lo).mpr hlo, ?_⟩
          refine bind_eq_ok.mpr ⟨hi, (parseValue_ok_iff hnames hb hi).mpr hhi, ?_⟩
          rw [if_neg (by rw [show lo.gt hi = false from hforward]; exact Bool.false_ne_true)]
          rfl
      · next hsplit =>
        refine iff_of_false (fun h => by cases h) ?_
        rintro ⟨item, -, hrange, -⟩
        obtain ⟨lo, hi, step', loText, hiText, -, hsplit', -⟩ := hcut hrange
        exact hsplit loText hiText hsplit'
    · next hdash =>
      -- a single value
      constructor
      · intro h
        obtain ⟨v, hv, h⟩ := bind_eq_ok.mp h
        simp only [Except.ok.injEq, Prod.mk.injEq] at h
        obtain ⟨hbounds, hbounds', hr⟩ := h
        exact ⟨.one v step, rfl, (parseValue_ok_iff hnames hs v).mp hv, trivial,
          Prod.ext hbounds hbounds', hr⟩
      · rintro ⟨item, hitem, hrange, -, rfl, rfl⟩
        cases item with
        | star step' => exact absurd hrange hstar
        | one value step' =>
          exact bind_eq_ok.mpr ⟨value, (parseValue_ok_iff hnames hs value).mpr hrange, rfl⟩
        | range lo hi step' =>
          obtain ⟨loText, hiText, rfl, -⟩ := hrange
          exact absurd (by simp) hdash

/-- The loop of a single value adds it once. -/
private theorem numbersFrom_self (v step : Nat) : numbersFrom v step (v + 1 - v) v = [v] := by
  rw [show v + 1 - v = 1 by omega]
  simp [numbersFrom]

/-- The loop of an item that does not run backwards. -/
private theorem loopValues_ok_iff (spec : FieldSpec) {item : CronItem} (hforward : item.Forward)
    (added : List CronValue) :
    loopValues (item.bounds spec).1 (item.bounds spec).2 item.stepValue = .ok added ↔
      item.Accepted ∧ item.values spec = added := by
  match item with
  | .star step => simp [CronItem.bounds, loopValues, CronItem.Accepted, CronItem.values]
  | .one (.num v) step =>
    simp only [CronItem.bounds, loopValues, numbersFrom_self, CronItem.Accepted,
      CronItem.values, Except.ok.injEq, List.map_cons, List.map_nil, true_and]
  | .one (.inherited what) step => simp [CronItem.bounds, loopValues, CronItem.Accepted, CronItem.values]
  | .range (.num lo) (.num hi) step =>
    simp only [CronItem.Forward] at hforward
    simp [CronItem.bounds, loopValues, CronItem.Accepted, CronItem.values, hforward]
  | .range (.num lo) (.inherited what) step =>
    simp [CronItem.bounds, loopValues, CronItem.Accepted, CronItem.values, CronValue.gt]
  | .range (.inherited what) (.num hi) step =>
    simp [CronItem.bounds, loopValues, CronItem.Accepted, CronItem.values, CronValue.gt]
  | .range (.inherited what) (.inherited what') step =>
    simp only [CronItem.Forward] at hforward
    cases what <;> cases what' <;>
      simp_all [CronItem.bounds, loopValues, CronItem.Accepted, CronItem.values, CronValue.gt]

/-- An item that is accepted does not run backwards. -/
private theorem CronItem.Accepted.forward {item : CronItem} (h : item.Accepted) : item.Forward := by
  cases item with
  | star step => trivial
  | one value step => trivial
  | range lo hi step => exact h.1

private theorem rangeText_ne_nil {spec : FieldSpec} (hnames : PlainNames spec) {item : CronItem} {s : Str}
    (h : RangeText spec item s) : s ≠ [] := by
  cases item with
  | star step =>
    rw [show s = ['*'] from h]
    exact List.cons_ne_nil _ _
  | one value step => exact (lower_of_valueText hnames h).1
  | range lo hi step =>
    obtain ⟨loText, hiText, rfl, -⟩ := h
    simp

private theorem StepRest.length_le {step : Option Nat} {rest : List Str} (h : StepRest step rest) :
    rest.length ≤ 1 ∧ rest.head?.isSome = step.isSome := by
  cases step with
  | none =>
    rw [show rest = [] from h]
    exact ⟨Nat.zero_le _, rfl⟩
  | some n =>
    obtain ⟨digits, rfl, -⟩ := h
    exact ⟨le_refl _, rfl⟩

/-- An item is parsed exactly when its text is that of an accepted one. -/
theorem parseItem_ok_iff {spec : FieldSpec} (hnames : PlainNames spec) (raw : Str) {s : Str}
    (hs : ∀ c ∈ s, Str.isJsWhiteSpace c = false) (result : List CronValue × Bool) :
    parseItem spec raw s = .ok result ↔
      ∃ item, Spells spec item s ∧ item.Accepted ∧ (item.values spec, item.restricts) = result := by
  have hclean : ∀ {part rest}, s.splitOn '/' = part :: rest →
      ∀ c ∈ part, Str.isJsWhiteSpace c = false := fun hsplit c hc =>
    hs c (Lines.mem_of_mem_splitOn (hsplit ▸ List.mem_cons_self) hc)
  unfold parseItem
  simp only [jsTrim_eq_self hs]
  constructor
  · intro h
    split at h
    · cases h
    split at h
    · next rangeText rest hsplit =>
      split at h
      · cases h
      · next hrest =>
        obtain ⟨step, hstep, h⟩ := bind_eq_ok.mp h
        obtain ⟨⟨lo, hi, restricts⟩, hrange, h⟩ := bind_eq_ok.mp h
        obtain ⟨added, hadded, h⟩ := bind_eq_ok.mp h
        obtain rfl := Except.ok.inj h
        obtain ⟨step', hstepRest, rfl⟩ := (parseStep_ok_iff spec (by omega) step).mp hstep
        obtain ⟨item, hitem, hrangeText, hforward, hbounds, rfl⟩ :=
          (parseRange_ok_iff hnames (hclean hsplit) hstepRest.length_le.2 (lo, hi) restricts).mp hrange
        have hloop := (loopValues_ok_iff spec hforward added).mp (by
          rw [hbounds, CronItem.stepValue, hitem]
          exact hadded)
        rw [← hitem] at hstepRest
        exact ⟨item, (spells_iff hnames item s).mpr ⟨rangeText, rest, hsplit, hrangeText, hstepRest⟩,
          hloop.1, by rw [hloop.2]⟩
    · cases h
  · rintro ⟨item, hspells, haccepted, rfl⟩
    obtain ⟨rangeText, rest, hsplit, hrangeText, hstepRest⟩ := (spells_iff hnames item s).mp hspells
    have hne : s ≠ [] := by
      rintro rfl
      rw [List.splitOn_nil] at hsplit
      exact rangeText_ne_nil hnames hrangeText (List.cons.inj hsplit).1.symm
    have hrest := hstepRest.length_le
    rw [if_neg hne, hsplit]
    simp only
    rw [if_neg (by omega)]
    refine bind_eq_ok.mpr ⟨item.stepValue, (parseStep_ok_iff spec hrest.1 _).mpr ⟨_, hstepRest, rfl⟩, ?_⟩
    refine bind_eq_ok.mpr ⟨((item.bounds spec).1, (item.bounds spec).2, item.restricts),
      (parseRange_ok_iff hnames (hclean hsplit) hrest.2 (item.bounds spec) item.restricts).mpr
        ⟨item, rfl, hrangeText, haccepted.forward, rfl, rfl⟩, ?_⟩
    exact bind_eq_ok.mpr
      ⟨_, (loopValues_ok_iff spec haccepted.forward _).mpr ⟨haccepted, rfl⟩, rfl⟩

/-! ## Fields -/

/-- The values of a set after more are added. -/
theorem mem_addAll {values added : List CronValue} {v : CronValue} :
    v ∈ addAll values added ↔ v ∈ values ∨ v ∈ added := by
  unfold addAll
  induction added generalizing values with
  | nil => simp
  | cons w added ih =>
    rw [List.foldl_cons, ih]
    split
    · next hmem =>
      constructor
      · rintro (h | h)
        · exact Or.inl h
        · exact Or.inr (List.mem_cons_of_mem _ h)
      · rintro (h | h)
        · exact Or.inl h
        · rcases List.mem_cons.mp h with rfl | h
          · exact Or.inl hmem
          · exact Or.inr h
    · simp [or_assoc]

/-- A field is parsed exactly when all its items are accepted; its values are those of the items. -/
private theorem parseItems_ok_iff {spec : FieldSpec} (hnames : PlainNames spec) (raw : Str)
    {parts : List Str} (hparts : ∀ s ∈ parts, ∀ c ∈ s, Str.isJsWhiteSpace c = false)
    (values : List CronValue) (restricted : Bool) (result : List CronValue × Bool) :
    parseItems spec raw parts values restricted = .ok result ↔
      ∃ items, List.Forall₂ (Spells spec) items parts ∧ (∀ item ∈ items, item.Accepted) ∧
        (addAll values (items.flatMap (·.values spec)),
          restricted || items.any CronItem.restricts) = result := by
  induction parts generalizing values restricted with
  | nil =>
    constructor
    · intro h
      exact ⟨[], .nil, by simp, by simpa [parseItems, addAll] using h⟩
    · rintro ⟨items, hspells, -, rfl⟩
      cases hspells
      simp [parseItems, addAll]
  | cons part parts ih =>
    have hpart := hparts part List.mem_cons_self
    have hrest := fun s hs => hparts s (List.mem_cons_of_mem part hs)
    rw [parseItems, bind_eq_ok]
    constructor
    · rintro ⟨⟨added, restricts⟩, hitem, h⟩
      obtain ⟨item, hspells, haccepted, heq⟩ := (parseItem_ok_iff hnames raw hpart _).mp hitem
      obtain ⟨rfl, rfl⟩ := Prod.mk.inj heq
      obtain ⟨items, hitems, hall, rfl⟩ := (ih hrest _ _).mp h
      refine ⟨item :: items, .cons hspells hitems, List.forall_mem_cons.mpr ⟨haccepted, hall⟩, ?_⟩
      simp [addAll, List.foldl_append, Bool.or_assoc]
    · rintro ⟨items, hspells, haccepted, rfl⟩
      cases hspells with
      | cons hitem hitems =>
        rename_i item items
        obtain ⟨hfirst, hall⟩ := List.forall_mem_cons.mp haccepted
        refine ⟨_, (parseItem_ok_iff hnames raw hpart _).mpr ⟨item, hitem, hfirst, rfl⟩, ?_⟩
        refine (ih hrest _ _).mpr ⟨items, hitems, hall, ?_⟩
        simp [addAll, List.foldl_append, Bool.or_assoc]

/-- What a field with these items is parsed to. -/
def FieldResult (spec : FieldSpec) (items : List CronItem) : List CronValue × Bool :=
  (addAll [] (items.flatMap (·.values spec)), items.any CronItem.restricts)

/-- A field is parsed exactly when all its items are accepted and one of them adds something. -/
theorem parseField_ok_iff {spec : FieldSpec} (hnames : PlainNames spec) {text : Str}
    (htext : ∀ c ∈ text, Str.isJsWhiteSpace c = false) (result : List CronValue × Bool) :
    parseField text spec = .ok result ↔
      ∃ items, FieldItems spec text items ∧ (∀ item ∈ items, item.Accepted) ∧
        (∃ item ∈ items, item.values spec ≠ []) ∧ FieldResult spec items = result := by
  have hparts : ∀ s ∈ text.splitOn ',', ∀ c ∈ s, Str.isJsWhiteSpace c = false := fun s hs c hc =>
    htext c (Lines.mem_of_mem_splitOn hs hc)
  have hempty : ∀ items : List CronItem, addAll [] (items.flatMap (·.values spec)) = [] ↔
      ¬ ∃ item ∈ items, item.values spec ≠ [] := by
    intro items
    simp only [List.eq_nil_iff_forall_not_mem, mem_addAll, List.not_mem_nil, false_or,
      List.mem_flatMap, ne_eq, not_exists, not_and, not_not]
    exact ⟨fun h item hitem v hv => h v item hitem hv, fun h v item hitem hv => h item hitem v hv⟩
  unfold parseField
  rw [bind_eq_ok]
  constructor
  · rintro ⟨⟨values, restricted⟩, hitems, h⟩
    obtain ⟨items, hspells, haccepted, heq⟩ := (parseItems_ok_iff hnames text hparts _ _ _).mp hitems
    obtain ⟨rfl, rfl⟩ := Prod.mk.inj heq
    simp only at h
    split at h
    · cases h
    · next hne =>
      rw [hempty, not_not] at hne
      exact ⟨items, hspells, haccepted, hne, by simpa [FieldResult] using h⟩
  · rintro ⟨items, hspells, haccepted, hne, rfl⟩
    refine ⟨_, (parseItems_ok_iff hnames text hparts [] false _).mpr ⟨items, hspells, haccepted, rfl⟩, ?_⟩
    simp only
    rw [if_neg (by rw [hempty, not_not]; exact hne)]
    simp [FieldResult]

/-! ## Denoted values -/

/-- What the loop of an item adds. -/
private theorem mem_numbersFrom_iff {hi step turns v n : Nat} :
    n ∈ numbersFrom hi step turns v ↔ ∃ k < turns, n = v + k * step ∧ n ≤ hi := by
  induction turns generalizing v with
  | zero => simp [numbersFrom]
  | succ turns ih =>
    unfold numbersFrom
    split
    · next hle =>
      rw [List.mem_cons, ih]
      constructor
      · rintro (rfl | ⟨k, hk, rfl, hn⟩)
        · exact ⟨0, Nat.succ_pos _, by simp, hle⟩
        · exact ⟨k + 1, by omega, by rw [Nat.succ_mul]; omega, hn⟩
      · rintro ⟨k, hk, rfl, hn⟩
        cases k with
        | zero => exact Or.inl (by simp)
        | succ k => exact Or.inr ⟨k, by omega, by rw [Nat.succ_mul]; omega, hn⟩
    · next hgt =>
      refine iff_of_false List.not_mem_nil ?_
      rintro ⟨k, -, rfl, hn⟩
      omega

/-- The loop from `lo` to `hi` adds every `step`th number. -/
theorem mem_numbersFrom {lo hi step n : Nat} (hstep : 1 ≤ step) :
    n ∈ numbersFrom hi step (hi + 1 - lo) lo ↔ lo ≤ n ∧ n ≤ hi ∧ step ∣ n - lo := by
  rw [mem_numbersFrom_iff]
  constructor
  · rintro ⟨k, -, rfl, hn⟩
    exact ⟨by omega, hn, k, by rw [Nat.mul_comm]; omega⟩
  · rintro ⟨hlo, hhi, k, hk⟩
    have hle : k ≤ step * k := Nat.le_mul_of_pos_left k hstep
    exact ⟨k, by omega, by rw [Nat.mul_comm]; omega, hhi⟩

/-- A documented item adds the numbers that it denotes. -/
private theorem mem_values_iff {spec : FieldSpec} {item : CronItem} (hdocumented : item.Documented)
    (hstep : 1 ≤ item.stepValue) (v : CronValue) :
    v ∈ item.values spec ↔ ∃ n, item.Denotes spec n ∧ v = .num n := by
  match item, hdocumented with
  | .star step, _ =>
    simp only [CronItem.values, CronItem.Denotes, List.mem_map, mem_numbersFrom hstep, eq_comm]
  | .one (.num m) none, _ =>
    simp only [CronItem.values, CronItem.Denotes, List.mem_singleton, CronValue.num.injEq,
      exists_eq_left']
  | .range (.num lo) (.num hi) step, _ =>
    simp only [CronItem.values, CronItem.Denotes, List.mem_map, mem_numbersFrom hstep, eq_comm]

/-- A documented item adds something. -/
private theorem values_ne_nil {spec : FieldSpec} (hspec : spec.min ≤ spec.max) {item : CronItem}
    (hdocumented : item.Documented) (hstep : 1 ≤ item.stepValue) : item.values spec ≠ [] := by
  obtain ⟨n, hn⟩ : ∃ n, item.Denotes spec n := by
    match item, hdocumented with
    | .star step, _ => exact ⟨spec.min, le_refl _, hspec, by simp⟩
    | .one (.num m) none, _ => exact ⟨m, rfl⟩
    | .range (.num lo) (.num hi) step, hle => exact ⟨lo, le_refl _, hle, by simp⟩
  exact List.ne_nil_of_mem ((mem_values_iff hdocumented hstep _).mpr ⟨n, hn, rfl⟩)

/-- The step of a spelled item is at least 1. -/
private theorem one_le_stepValue {spec : FieldSpec} {item : CronItem} {s : Str}
    (h : Spells spec item s) : 1 ≤ item.stepValue := by
  obtain ⟨_, stepText, -, -, hstep⟩ := h
  unfold CronItem.stepValue
  cases hitem : item.step with
  | none => exact le_refl _
  | some n =>
    rw [hitem] at hstep
    obtain ⟨-, -, -, -, hpos⟩ := hstep
    exact hpos

/-- What every item of a field satisfies. -/
private theorem FieldItems.forall {spec : FieldSpec} {text : Str} {items : List CronItem}
    (h : FieldItems spec text items) : items ≠ [] ∧ ∀ item ∈ items, 1 ≤ item.stepValue := by
  unfold FieldItems at h
  constructor
  · rintro rfl
    exact List.splitOn_ne_nil ',' text (List.forall₂_nil_left_iff.mp h)
  · exact ((List.forall₂_and_left _ _).mp (h.imp fun item s hs => ⟨one_le_stepValue hs, hs⟩)).1

/-- A field has one list of items. -/
private theorem fieldItems_unique {spec : FieldSpec} (hnames : PlainNames spec) {text : Str}
    (htext : ∀ c ∈ text, Str.isJsWhiteSpace c = false) {items items' : List CronItem}
    (h : FieldItems spec text items) (h' : FieldItems spec text items') : items = items' := by
  unfold FieldItems at h h'
  have hparts : ∀ s ∈ text.splitOn ',', ∀ c ∈ s, Str.isJsWhiteSpace c = false := fun s hs c hc =>
    htext c (Lines.mem_of_mem_splitOn hs hc)
  generalize text.splitOn ',' = parts at h h' hparts
  induction h generalizing items' with
  | nil => exact (List.forall₂_nil_right_iff.mp h').symm
  | cons hitem _ ih =>
    cases h' with
    | cons hitem' hitems' =>
      rw [spells_unique hnames (hparts _ List.mem_cons_self) hitem hitem',
        ih hitems' fun s hs => hparts s (List.mem_cons_of_mem _ hs)]

/-! ## White space between the fields -/

private theorem collapse_cons {c : Char} (hc : Str.isJsWhiteSpace c = false) (s : Str) :
    collapse (c :: s) = c :: collapse s := by
  cases s with
  | nil => rfl
  | cons d s => simp [collapse, hc]

/-- A field is left as it is. -/
private theorem collapse_append {field : Str} (hfield : ∀ c ∈ field, Str.isJsWhiteSpace c = false)
    (s : Str) : collapse (field ++ s) = field ++ collapse s := by
  induction field with
  | nil => rfl
  | cons c field ih =>
    rw [List.cons_append, collapse_cons (hfield c List.mem_cons_self),
      ih fun d hd => hfield d (List.mem_cons_of_mem _ hd), List.cons_append]

/-- Of a gap its last character is left. -/
private theorem collapse_gap {gap : Str} (hne : gap ≠ [])
    (hgap : ∀ c ∈ gap, Str.isJsWhiteSpace c = true) {d : Char} (hd : Str.isJsWhiteSpace d = false)
    (s : Str) : ∃ c, Str.isJsWhiteSpace c = true ∧ collapse (gap ++ d :: s) = c :: collapse (d :: s) := by
  induction gap with
  | nil => exact absurd rfl hne
  | cons c gap ih =>
    cases gap with
    | nil =>
      refine ⟨c, hgap c List.mem_cons_self, ?_⟩
      simp [collapse, hd]
    | cons c' gap =>
      obtain ⟨kept, hkept, heq⟩ := ih (List.cons_ne_nil _ _)
        fun x hx => hgap x (List.mem_cons_of_mem _ hx)
      refine ⟨kept, hkept, ?_⟩
      rw [← heq]
      simp [collapse, hgap c List.mem_cons_self, hgap c' (by simp)]

/-- A separated text starts with its first field. -/
private theorem Separated.head {s : Str} {fields : List Str} (h : Separated s fields) :
    ∃ d rest, s = d :: rest ∧ Str.isJsWhiteSpace d = false := by
  cases h with
  | one hne hfield =>
    obtain ⟨d, rest, rfl⟩ := List.exists_cons_of_ne_nil hne
    exact ⟨d, rest, rfl, hfield d List.mem_cons_self⟩
  | cons hne hfield _ _ _ =>
    obtain ⟨d, rest, rfl⟩ := List.exists_cons_of_ne_nil hne
    exact ⟨d, _, rfl, hfield d List.mem_cons_self⟩

/-- The fields have no white space. -/
private theorem Separated.clean {s : Str} {fields : List Str} (h : Separated s fields) :
    ∀ field ∈ fields, ∀ c ∈ field, Str.isJsWhiteSpace c = false := by
  induction h with
  | one _ hfield =>
    intro field hmem
    rwa [List.mem_singleton.mp hmem]
  | cons _ hfield _ _ _ ih => exact List.forall_mem_cons.mpr ⟨hfield, ih⟩

/-- Splitting finds the fields of a separated text. -/
private theorem splitSpaces_of_separated {s : Str} {fields : List Str} (h : Separated s fields) :
    splitSpaces s = fields := by
  unfold splitSpaces
  induction h with
  | @one field hne hfield =>
    have hcollapse : collapse field = field := by
      have h := collapse_append hfield []
      rwa [List.append_nil, show collapse [] = [] from rfl, List.append_nil] at h
    rw [hcollapse, List.splitOnP_eq_singleton hfield]
  | cons hne hfield hgap hspace hrest ih =>
    obtain ⟨d, rest, rfl, hd⟩ := hrest.head
    obtain ⟨c, hc, hcollapse⟩ := collapse_gap hgap hspace hd rest
    rw [collapse_append hfield, hcollapse, List.splitOnP_append_cons_of_forall_mem hfield c hc, ih]

/-- A text that neither starts nor ends with white space is separated. -/
private theorem exists_separated {s : Str} (hne : s ≠ [])
    (hhead : ∀ c, s.head? = some c → Str.isJsWhiteSpace c = false)
    (hlast : ∀ c, s.getLast? = some c → Str.isJsWhiteSpace c = false) :
    ∃ fields, Separated s fields := by
  -- induction on the length: the first field and the gap behind it are taken off
  induction hlen : s.length using Nat.strong_induction_on generalizing s with
  | _ n ih =>
    obtain ⟨c, cs, rfl⟩ := List.exists_cons_of_ne_nil hne
    have hc : Str.isJsWhiteSpace c = false := hhead c rfl
    let field := (c :: cs).takeWhile fun c => !Str.isJsWhiteSpace c
    let behind := (c :: cs).dropWhile fun c => !Str.isJsWhiteSpace c
    have hsplit : c :: cs = field ++ behind := List.takeWhile_append_dropWhile.symm
    have hfieldNe : field ≠ [] := by simp [field, hc]
    have hfield : ∀ d ∈ field, Str.isJsWhiteSpace d = false := fun d hd => by
      simpa using List.mem_takeWhile_imp hd
    by_cases hbehind : behind = []
    · rw [hbehind, List.append_nil] at hsplit
      rw [hsplit]
      exact ⟨[field], .one hfieldNe hfield⟩
    let gap := behind.takeWhile Str.isJsWhiteSpace
    let rest := behind.dropWhile Str.isJsWhiteSpace
    have hgapSplit : behind = gap ++ rest := List.takeWhile_append_dropWhile.symm
    have hgap : ∀ d ∈ gap, Str.isJsWhiteSpace d = true := fun d hd => List.mem_takeWhile_imp hd
    have hgapNe : gap ≠ [] := by
      have hfirst := List.head_dropWhile_not (fun c => !Str.isJsWhiteSpace c) hbehind
      obtain ⟨d, ds, hds⟩ := List.exists_cons_of_ne_nil hbehind
      simp only [gap, hds]
      have hd : Str.isJsWhiteSpace d = true := by
        have : behind.head hbehind = d := by simp [hds]
        rw [← this]
        simpa using hfirst
      simp [hd]
    have hrestNe : rest ≠ [] := by
      -- otherwise the text ends with the gap
      intro hnil
      rw [hnil, List.append_nil] at hgapSplit
      have hend := hlast (gap.getLast hgapNe) (by
        rw [hsplit, hgapSplit, List.getLast?_append_of_ne_nil _ hgapNe,
          List.getLast?_eq_some_getLast hgapNe])
      rw [hgap _ (List.getLast_mem hgapNe)] at hend
      cases hend
    have hrestHead : ∀ d, rest.head? = some d → Str.isJsWhiteSpace d = false := by
      intro d hd
      have hfirst := List.head_dropWhile_not Str.isJsWhiteSpace hrestNe
      rw [List.head?_eq_some_head hrestNe, Option.some.injEq] at hd
      rw [← hd]
      exact hfirst
    have hrestLast : ∀ d, rest.getLast? = some d → Str.isJsWhiteSpace d = false := by
      intro d hd
      refine hlast d ?_
      rw [hsplit, hgapSplit, ← List.append_assoc, List.getLast?_append_of_ne_nil _ hrestNe, hd]
    have hshorter : rest.length < n := by
      have h := congrArg List.length hsplit
      have h' := congrArg List.length hgapSplit
      have := List.length_pos_iff.mpr hfieldNe
      rw [List.length_append] at h h'
      omega
    obtain ⟨fields, hfields⟩ := ih _ hshorter hrestNe hrestHead hrestLast rfl
    rw [hsplit, hgapSplit]
    exact ⟨_, .cons hfieldNe hfield hgapNe hgap hfields⟩

/-- A trimmed text neither starts nor ends with white space. -/
private theorem jsTrim_ends (s : Str) :
    (∀ c, (Str.jsTrim s).head? = some c → Str.isJsWhiteSpace c = false) ∧
      ∀ c, (Str.jsTrim s).getLast? = some c → Str.isJsWhiteSpace c = false := by
  unfold Str.jsTrim
  constructor
  · intro c hc
    have hne : (s.rdropWhile Str.isJsWhiteSpace).dropWhile Str.isJsWhiteSpace ≠ [] := by
      intro hnil
      rw [hnil] at hc
      cases hc
    rw [List.head?_eq_some_head hne, Option.some.injEq] at hc
    rw [← hc]
    exact List.head_dropWhile_not _ hne
  · intro c hc
    -- trimming on the left keeps the last character
    obtain ⟨front, hfront⟩ := List.dropWhile_suffix (l := s.rdropWhile Str.isJsWhiteSpace)
      Str.isJsWhiteSpace
    have hne : (s.rdropWhile Str.isJsWhiteSpace).dropWhile Str.isJsWhiteSpace ≠ [] := by
      intro hnil
      rw [hnil] at hc
      cases hc
    have hlast : (s.rdropWhile Str.isJsWhiteSpace).getLast? = some c := by
      rw [← hfront, List.getLast?_append_of_ne_nil _ hne, hc]
    have hne' : s.rdropWhile Str.isJsWhiteSpace ≠ [] := by
      intro hnil
      rw [hnil] at hlast
      cases hlast
    rw [List.getLast?_eq_some_getLast hne', Option.some.injEq] at hlast
    rw [← hlast]
    have := List.rdropWhile_last_not Str.isJsWhiteSpace s hne'
    simpa using this

/-- The trimmed expression is separated into fields exactly when splitting finds them. -/
theorem separated_iff (s : Str) {fields : List Str} (hfields : fields ≠ [[]]) :
    Separated (Str.jsTrim s) fields ↔ splitSpaces (Str.jsTrim s) = fields := by
  refine ⟨splitSpaces_of_separated, fun h => ?_⟩
  have hne : Str.jsTrim s ≠ [] := by
    intro hnil
    rw [hnil] at h
    exact hfields (h.symm.trans rfl)
  obtain ⟨hhead, hlast⟩ := jsTrim_ends s
  obtain ⟨found, hfound⟩ := exists_separated hne hhead hlast
  rwa [← h, splitSpaces_of_separated hfound]

/-! ## Expressions -/

private theorem plainNames_none {spec : FieldSpec} (h : spec.names = none) : PlainNames spec := by
  intro names hnames
  rw [h] at hnames
  cases hnames

private theorem plainNames_month : PlainNames monthSpec := by
  intro names hnames
  obtain rfl := Option.some.inj hnames
  decide

private theorem plainNames_dayOfWeek : PlainNames dayOfWeekSpec := by
  intro names hnames
  obtain rfl := Option.some.inj hnames
  decide

/-- What an expression with these items is parsed to. -/
def CronItems.result (items : CronItems) : CronFields :=
  { minute := (FieldResult minuteSpec items.minute).1
    hour := (FieldResult hourSpec items.hour).1
    dayOfMonth := (FieldResult dayOfMonthSpec items.dayOfMonth).1
    month := (FieldResult monthSpec items.month).1
    dayOfWeek := addAll [] ((FieldResult dayOfWeekSpec items.dayOfWeek).1.map foldSunday)
    dayOfMonthRestricted := (FieldResult dayOfMonthSpec items.dayOfMonth).2
    dayOfWeekRestricted := (FieldResult dayOfWeekSpec items.dayOfWeek).2 }

/-- What holds of all items holds of those of each field. -/
theorem CronItems.forall_all_iff {items : CronItems} {P : CronItem → Prop} :
    (∀ item ∈ items.all, P item) ↔
      (∀ item ∈ items.minute, P item) ∧ (∀ item ∈ items.hour, P item) ∧
        (∀ item ∈ items.dayOfMonth, P item) ∧ (∀ item ∈ items.month, P item) ∧
        ∀ item ∈ items.dayOfWeek, P item := by
  simp only [all, List.forall_mem_append, and_assoc]

/-- The parser accepts the expressions whose items are accepted. -/
theorem parseCronExpression_ok_iff (expr : Str) (fields : CronFields) :
    parseCronExpression expr = .ok fields ↔
      ∃ items, ExprItems expr items ∧ items.Accepted ∧ items.result = fields := by
  have hminute : PlainNames minuteSpec := plainNames_none rfl
  have hhour : PlainNames hourSpec := plainNames_none rfl
  have hdayOfMonth : PlainNames dayOfMonthSpec := plainNames_none rfl
  unfold parseCronExpression
  constructor
  · intro h
    split at h
    · next minuteText hourText dayOfMonthText monthText dayOfWeekText hsplit =>
      have hsep := (separated_iff expr (by simp)).mpr hsplit
      have hclean := hsep.clean
      simp only [List.forall_mem_cons] at hclean
      obtain ⟨hc1, hc2, hc3, hc4, hc5, -⟩ := hclean
      obtain ⟨r1, h1, h⟩ := bind_eq_ok.mp h
      obtain ⟨r2, h2, h⟩ := bind_eq_ok.mp h
      obtain ⟨r3, h3, h⟩ := bind_eq_ok.mp h
      obtain ⟨r4, h4, h⟩ := bind_eq_ok.mp h
      obtain ⟨r5, h5, h⟩ := bind_eq_ok.mp h
      obtain ⟨minute, hm1, ha1, hn1, rfl⟩ := (parseField_ok_iff hminute hc1 r1).mp h1
      obtain ⟨hour, hm2, ha2, hn2, rfl⟩ := (parseField_ok_iff hhour hc2 r2).mp h2
      obtain ⟨dayOfMonth, hm3, ha3, hn3, rfl⟩ := (parseField_ok_iff hdayOfMonth hc3 r3).mp h3
      obtain ⟨month, hm4, ha4, hn4, rfl⟩ := (parseField_ok_iff plainNames_month hc4 r4).mp h4
      obtain ⟨dayOfWeek, hm5, ha5, hn5, rfl⟩ := (parseField_ok_iff plainNames_dayOfWeek hc5 r5).mp h5
      refine ⟨⟨minute, hour, dayOfMonth, month, dayOfWeek⟩,
        ⟨_, _, _, _, _, hsep, hm1, hm2, hm3, hm4, hm5⟩,
        ⟨CronItems.forall_all_iff.mpr ⟨ha1, ha2, ha3, ha4, ha5⟩, hn1, hn2, hn3, hn4, hn5⟩, ?_⟩
      exact Except.ok.inj h
    · cases h
  · rintro ⟨items, ⟨t1, t2, t3, t4, t5, hsep, hm1, hm2, hm3, hm4, hm5⟩, haccepted, rfl⟩
    have hclean := hsep.clean
    simp only [List.forall_mem_cons] at hclean
    obtain ⟨hc1, hc2, hc3, hc4, hc5, -⟩ := hclean
    obtain ⟨ha1, ha2, ha3, ha4, ha5⟩ := CronItems.forall_all_iff.mp haccepted.each
    rw [(separated_iff expr (by simp)).mp hsep]
    simp only
    refine bind_eq_ok.mpr
      ⟨_, (parseField_ok_iff hminute hc1 _).mpr ⟨_, hm1, ha1, haccepted.minute, rfl⟩, ?_⟩
    refine bind_eq_ok.mpr
      ⟨_, (parseField_ok_iff hhour hc2 _).mpr ⟨_, hm2, ha2, haccepted.hour, rfl⟩, ?_⟩
    refine bind_eq_ok.mpr
      ⟨_, (parseField_ok_iff hdayOfMonth hc3 _).mpr ⟨_, hm3, ha3, haccepted.dayOfMonth, rfl⟩, ?_⟩
    refine bind_eq_ok.mpr
      ⟨_, (parseField_ok_iff plainNames_month hc4 _).mpr ⟨_, hm4, ha4, haccepted.month, rfl⟩, ?_⟩
    exact bind_eq_ok.mpr ⟨_, (parseField_ok_iff plainNames_dayOfWeek hc5 _).mpr
      ⟨_, hm5, ha5, haccepted.dayOfWeek, rfl⟩, rfl⟩

/-- An expression has one set of items. -/
theorem exprItems_unique {expr : Str} {items items' : CronItems} (h : ExprItems expr items)
    (h' : ExprItems expr items') : items = items' := by
  obtain ⟨t1, t2, t3, t4, t5, hsep, hm1, hm2, hm3, hm4, hm5⟩ := h
  obtain ⟨t1', t2', t3', t4', t5', hsep', hm1', hm2', hm3', hm4', hm5'⟩ := h'
  have hclean := hsep.clean
  simp only [List.forall_mem_cons] at hclean
  obtain ⟨hc1, hc2, hc3, hc4, hc5, -⟩ := hclean
  have hsame := splitSpaces_of_separated hsep
  rw [splitSpaces_of_separated hsep'] at hsame
  simp only [List.cons.injEq, and_true] at hsame
  obtain ⟨rfl, rfl, rfl, rfl, rfl⟩ := hsame
  cases items
  cases items'
  simp only [CronItems.mk.injEq]
  exact ⟨fieldItems_unique (plainNames_none rfl) hc1 hm1 hm1',
    fieldItems_unique (plainNames_none rfl) hc2 hm2 hm2',
    fieldItems_unique (plainNames_none rfl) hc3 hm3 hm3',
    fieldItems_unique plainNames_month hc4 hm4 hm4',
    fieldItems_unique plainNames_dayOfWeek hc5 hm5 hm5'⟩

/-- The values of a field of documented items are the numbers that they denote. -/
private theorem isUnion_of_documented {spec : FieldSpec} {text : Str} {items : List CronItem}
    (hitems : FieldItems spec text items) (hdocumented : ∀ item ∈ items, item.Documented) :
    IsUnion spec items id (FieldResult spec items).1 := by
  intro v
  simp only [FieldResult, mem_addAll, List.not_mem_nil, false_or, List.mem_flatMap, id]
  constructor
  · rintro ⟨item, hitem, hv⟩
    obtain ⟨n, hn, rfl⟩ := (mem_values_iff (hdocumented item hitem) (hitems.forall.2 item hitem) v).mp hv
    exact ⟨item, hitem, n, hn, rfl⟩
  · rintro ⟨item, hitem, n, hn, rfl⟩
    exact ⟨item, hitem,
      (mem_values_iff (hdocumented item hitem) (hitems.forall.2 item hitem) _).mpr ⟨n, hn, rfl⟩⟩

/-- A field is unrestricted exactly when all its items are bare stars. -/
private theorem restricted_iff (spec : FieldSpec) (items : List CronItem) :
    (FieldResult spec items).2 = false ↔ ∀ item ∈ items, item = .star none := by
  simp only [FieldResult, List.any_eq_false, Bool.not_eq_true]
  refine forall₂_congr fun item _ => ?_
  match item with
  | .star none => simp [CronItem.restricts]
  | .star (some _) => simp [CronItem.restricts]
  | .one _ _ => simp [CronItem.restricts]
  | .range _ _ _ => simp [CronItem.restricts]

/-- Documented items are accepted. -/
private theorem accepted_of_documented {expr : Str} {items : CronItems} (h : ExprItems expr items)
    (hdocumented : ∀ item ∈ items.all, item.Documented) : items.Accepted := by
  obtain ⟨t1, t2, t3, t4, t5, -, hm1, hm2, hm3, hm4, hm5⟩ := h
  obtain ⟨hd1, hd2, hd3, hd4, hd5⟩ := CronItems.forall_all_iff.mp hdocumented
  have hadds : ∀ {spec : FieldSpec} {text : Str} {items : List CronItem}, spec.min ≤ spec.max →
      FieldItems spec text items → (∀ item ∈ items, item.Documented) →
      ∃ item ∈ items, item.values spec ≠ [] := by
    intro spec text items hspec hitems hdoc
    obtain ⟨item, rest, rfl⟩ := List.exists_cons_of_ne_nil hitems.forall.1
    exact ⟨item, List.mem_cons_self, values_ne_nil hspec (hdoc item List.mem_cons_self)
      (hitems.forall.2 item List.mem_cons_self)⟩
  exact ⟨fun item hitem => ((CronItem.documented_iff item).mp (hdocumented item hitem)).1,
    hadds (by decide) hm1 hd1, hadds (by decide) hm2 hd2, hadds (by decide) hm3 hd3,
    hadds (by decide) hm4 hd4, hadds (by decide) hm5 hd5⟩

/-- What is parsed of documented items is what they say. -/
private theorem means_of_documented {expr : Str} {items : CronItems} (h : ExprItems expr items)
    (hdocumented : ∀ item ∈ items.all, item.Documented) : Means items items.result := by
  obtain ⟨t1, t2, t3, t4, t5, -, hm1, hm2, hm3, hm4, hm5⟩ := h
  obtain ⟨hd1, hd2, hd3, hd4, hd5⟩ := CronItems.forall_all_iff.mp hdocumented
  refine ⟨isUnion_of_documented hm1 hd1, isUnion_of_documented hm2 hd2,
    isUnion_of_documented hm3 hd3, isUnion_of_documented hm4 hd4, fun v => ?_,
    restricted_iff dayOfMonthSpec items.dayOfMonth, restricted_iff dayOfWeekSpec items.dayOfWeek⟩
  simp only [CronItems.result, mem_addAll, List.not_mem_nil, false_or, List.mem_map]
  constructor
  · rintro ⟨w, hw, rfl⟩
    obtain ⟨item, hitem, n, hn, rfl⟩ := (isUnion_of_documented hm5 hd5 w).mp hw
    refine ⟨item, hitem, n, hn, ?_⟩
    unfold foldSunday
    by_cases h7 : n = 7
    · simp [h7]
    · simp [h7]
  · rintro ⟨item, hitem, n, hn, rfl⟩
    refine ⟨.num n, (isUnion_of_documented hm5 hd5 _).mpr ⟨item, hitem, n, hn, rfl⟩, ?_⟩
    unfold foldSunday
    by_cases h7 : n = 7
    · simp [h7]
    · simp [h7]

/-- The parser meets its grammar on exactly those expressions that have no item that slips, or that
    it refuses all the same. -/
theorem meetsGrammar_iff (expr : Str) :
    MeetsGrammar expr ↔
      ∀ items, ExprItems expr items → items.Accepted → ∀ item ∈ items.all, ¬ item.Slips := by
  constructor
  · rintro ⟨hiff, -⟩ items hitems haccepted item hitem
    obtain ⟨items', hitems', hdocumented⟩ := hiff.mp
      ⟨_, (parseCronExpression_ok_iff expr items.result).mpr ⟨items, hitems, haccepted, rfl⟩⟩
    obtain rfl := exprItems_unique hitems hitems'
    exact ((CronItem.documented_iff item).mp (hdocumented item hitem)).2
  · intro h
    refine ⟨⟨?_, ?_⟩, ?_⟩
    · rintro ⟨fields, hparse⟩
      obtain ⟨items, hitems, haccepted, -⟩ := (parseCronExpression_ok_iff expr fields).mp hparse
      exact ⟨items, hitems, fun item hitem => (CronItem.documented_iff item).mpr
        ⟨haccepted.each item hitem, h items hitems haccepted item hitem⟩⟩
    · rintro ⟨items, hitems, hdocumented⟩
      exact ⟨_, (parseCronExpression_ok_iff expr _).mpr
        ⟨items, hitems, accepted_of_documented hitems hdocumented, rfl⟩⟩
    · intro fields items hparse hitems hdocumented
      obtain ⟨items', hitems', -, rfl⟩ := (parseCronExpression_ok_iff expr fields).mp hparse
      obtain rfl := exprItems_unique hitems hitems'
      exact means_of_documented hitems hdocumented

/-- A month named like what every object inherits is accepted, though it is no month. -/
theorem inherited_month_accepted : ¬ MeetsGrammar "0 0 1 constructor *".toList := by
  have hparse : ∃ fields, parseCronExpression "0 0 1 constructor *".toList = .ok fields ∧
      CronValue.inherited .object ∈ fields.month := by
    refine ⟨_, rfl, ?_⟩
    decide
  obtain ⟨fields, hparse, hmem⟩ := hparse
  rintro ⟨hiff, hmeans⟩
  obtain ⟨items, hitems, hdocumented⟩ := hiff.mp ⟨fields, hparse⟩
  obtain ⟨item, -, n, -, heq⟩ := ((hmeans fields items hparse hitems hdocumented).month _).mp hmem
  cases heq

end TeamClu.AppCron
