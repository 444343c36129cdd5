import TeamClu.Spec.FrontmatterLines

/-!
# The two parsers of a frontmatter

The desktop and the daemon trim different characters, and they differ in what may stand around the
colon of a key.  `splitKey_eq_iff` says exactly which lines they split alike.  `regionAlike` walks over
a region as both parsers do and checks the lines that they read, one by one; where it succeeds the two
give the same document (`parsers_agree`).
-/

namespace TeamClu.Skills

/-! ## Splitting a line at its key -/

/-- Both languages trim the same off a text. -/
def trimsAlike (s : Str) : Bool := Str.jsTrim s = Str.trim s

/-- Both languages find the same key in a line: there is no white space before the colon and no line
    terminator behind it, unless there are both. -/
def keyAlike (line : Str) : Bool :=
  let rest := line.dropWhile isKeyChar
  match rest.dropWhile Str.isJsWhiteSpace with
  | ':' :: text =>
    !isKey (line.takeWhile isKeyChar) ||
      if rest.head? = some ':' then !text.any Desktop.isLineTerminator && trimsAlike text
      else text.any Desktop.isLineTerminator
  | _ => true

private theorem isKeyChar_of_isKey {key : Str} (h : isKey key = true) :
    ∀ c ∈ key, isKeyChar c = true := by
  cases key with
  | nil => exact fun _ hc => absurd hc List.not_mem_nil
  | cons c key =>
    simp only [isKey, Bool.and_eq_true, List.all_eq_true] at h
    rw [List.forall_mem_cons]
    refine ⟨?_, h.2⟩
    have hstart := h.1
    simp only [isKeyStart, isKeyChar, Char.isAlphanum, Bool.or_eq_true, decide_eq_true_eq] at hstart ⊢
    tauto

private theorem eq_append_of_splitOnce {line key text : Str}
    (h : Str.splitOnce ":".toList line = some (key, text)) : line = key ++ ':' :: text := by
  induction line generalizing key with
  | nil => simp [Str.splitOnce] at h
  | cons c line ih =>
    rw [Str.splitOnce] at h
    split at h
    · next hpre =>
      obtain ⟨t, ht⟩ := List.isPrefixOf_iff_prefix.mp hpre
      obtain ⟨rfl, rfl⟩ := Prod.mk.inj (Option.some.inj h)
      rw [← (List.cons.inj ht).1]
      rfl
    · cases hsplit : Str.splitOnce ":".toList line with
      | none =>
        rw [hsplit] at h
        cases h
      | some parts =>
        rw [hsplit] at h
        obtain ⟨rfl, rfl⟩ := Prod.mk.inj (Option.some.inj h)
        rw [ih hsplit]
        rfl

/-- The daemon wants the colon right behind the key. -/
theorem splitKey_eq (line : Str) :
    splitKey line =
      if isKey (line.takeWhile isKeyChar) && (line.dropWhile isKeyChar).head? = some ':' then
        some (line.takeWhile isKeyChar, Str.trim (line.dropWhile isKeyChar).tail)
      else none := by
  cases hsplit : splitKey line with
  | none =>
    split
    · next h =>
      -- then the line has a key
      rw [Bool.and_eq_true, decide_eq_true_eq] at h
      obtain ⟨text, hrest⟩ := List.head?_eq_some_iff.mp h.2
      have hline : line = line.takeWhile isKeyChar ++ ':' :: text := by
        rw [← hrest, List.takeWhile_append_dropWhile]
      rw [hline, splitKey_append h.1] at hsplit
      cases hsplit
    · rfl
  | some parts =>
    unfold splitKey at hsplit
    split at hsplit
    · cases hsplit
    · next key text honce =>
      split at hsplit
      · next hkey =>
        obtain rfl := eq_append_of_splitOnce honce
        have hall := isKeyChar_of_isKey hkey
        have hcolon : ¬ isKeyChar ':' = true := by decide
        rw [List.takeWhile_append_of_pos hall, List.dropWhile_append_of_pos hall,
          List.takeWhile_cons_of_neg hcolon, List.dropWhile_cons_of_neg hcolon, List.append_nil,
          if_pos (by simp [hkey])]
        exact hsplit.symm
      · cases hsplit

/-- The lines that both parsers split alike. -/
theorem splitKey_eq_iff (line : Str) :
    Desktop.splitKey line = splitKey line ↔ keyAlike line = true := by
  rw [splitKey_eq]
  unfold Desktop.splitKey keyAlike
  simp only
  cases hkey : isKey (line.takeWhile isKeyChar) with
  | false =>
    refine iff_of_true rfl ?_
    split <;> rfl
  | true =>
    simp only [Bool.true_and, if_true, Bool.not_true, Bool.false_or, decide_eq_true_eq]
    generalize line.takeWhile isKeyChar = key
    generalize line.dropWhile isKeyChar = rest
    have hspace : ¬ Str.isJsWhiteSpace ':' = true := by decide
    by_cases hcolon : rest.head? = some ':'
    · obtain ⟨text, rfl⟩ := List.head?_eq_some_iff.mp hcolon
      rw [List.dropWhile_cons_of_neg hspace]
      simp only [hcolon, if_true, List.tail_cons]
      by_cases hany : text.any Desktop.isLineTerminator = true
      · simp [hany]
      · simp [hany, trimsAlike]
    · rw [if_neg hcolon]
      generalize rest.dropWhile Str.isJsWhiteSpace = behind
      cases behind with
      | nil => simp
      | cons c text =>
        by_cases hc : c = ':'
        · subst hc
          simp [hcolon]
        · simp [hc]

/-! ## Reading a value -/

/-- Both languages find the text blank, or neither does. -/
def blankAlike (s : Str) : Bool := (Str.jsTrim s = []) = (Str.trim s = [])

/-- Both parsers read the same block: they find the same lines blank, and when the block is folded
    they trim its lines alike. -/
def blockAlike (fold : Bool) (base : Option Nat) : List Str → Bool
  | [] => true
  | line :: rest =>
    blankAlike line &&
      if Str.trim line = [] then blockAlike fold base rest
      else
        let indent := indentOf line
        indent < base.getD 1 ||
          (!fold || trimsAlike (line.drop (base.getD indent))) &&
            blockAlike fold (some (base.getD indent)) rest

/-- Whether a line is an item of a list. -/
def isItem (trimmed : Str) : Bool := "- ".toList.isPrefixOf trimmed

/-- Both parsers read the same items: they find the same lines to be items, and trim them alike. -/
def itemsAlike : List Str → Bool
  | [] => true
  | line :: rest =>
    isItem (Str.jsTrim line) = isItem (Str.trim line) &&
      (!isItem (Str.trim line) ||
        trimsAlike line && trimsAlike ((Str.trim line).drop 2) && itemsAlike rest)

/-- Both parsers read the same value behind a key. -/
def valueAlike (text : Str) (rest : List Str) : Bool :=
  if text = "|".toList || text = "|-".toList || text = ">".toList || text = ">-".toList then
    blockAlike (text.head? = some '>') none rest
  else if text = [] then itemsAlike rest
  else if text.head? = some '[' && text.getLast? = some ']' then
    trimsAlike text.tail.dropLast && ((Str.trim text.tail.dropLast).splitOn ',').all trimsAlike
  else true

/-- Both parsers read the same assignments, and none of them sets the prototype. -/
def regionAlike : Nat → List Str → Bool
  | _, [] => true
  | skip + 1, _ :: rest => regionAlike skip rest
  | 0, line :: rest =>
    keyAlike line &&
      match splitKey line with
      | none => regionAlike 0 rest
      | some (key, text) =>
        key ≠ "__proto__".toList && valueAlike text rest &&
          regionAlike (daemonReading.readValue text rest).2 rest

private theorem unquote_of_trimsAlike {s : Str} (h : trimsAlike s = true) :
    Desktop.reading.unquote s = daemonReading.unquote s := by
  have htrim : Desktop.reading.trim s = daemonReading.trim s := of_decide_eq_true h
  unfold Reading.unquote
  rw [htrim]
  rfl

/-- The lines of a block are read alike, and in a folded block they are trimmed alike. -/
private theorem collectBlock_of_blockAlike {fold : Bool} {base : Option Nat} {lines : List Str}
    (h : blockAlike fold base lines = true) :
    Desktop.reading.collectBlock base lines = daemonReading.collectBlock base lines ∧
      (fold = true →
        ∀ l ∈ (daemonReading.collectBlock base lines).1, Str.jsTrim l = Str.trim l) := by
  induction lines generalizing base with
  | nil => exact ⟨rfl, fun _ _ hl => absurd hl List.not_mem_nil⟩
  | cons line rest ih =>
    rw [blockAlike, Bool.and_eq_true] at h
    obtain ⟨hblank, h⟩ := h
    have hblank : (Desktop.reading.trim line = []) = (daemonReading.trim line = []) :=
      of_decide_eq_true hblank
    rw [Reading.collectBlock, Reading.collectBlock.eq_2 daemonReading]
    by_cases hempty : daemonReading.trim line = []
    · have h : blockAlike fold base rest = true := by
        rwa [if_pos (show Str.trim line = [] from hempty)] at h
      rw [if_pos (hblank.mpr hempty), if_pos hempty, (ih h).1]
      refine ⟨rfl, fun hf => ?_⟩
      rw [List.forall_mem_cons]
      exact ⟨rfl, (ih h).2 hf⟩
    · rw [if_neg (show ¬ Str.trim line = [] from hempty)] at h
      rw [if_neg (fun hd => hempty (hblank.mp hd)), if_neg hempty]
      simp only
      split
      · exact ⟨rfl, fun _ _ hl => absurd hl List.not_mem_nil⟩
      · next hindent =>
        simp only [decide_eq_false hindent, Bool.false_or, Bool.and_eq_true] at h
        obtain ⟨hline, h⟩ := h
        rw [(ih h).1]
        refine ⟨rfl, fun hf => ?_⟩
        rw [List.forall_mem_cons]
        refine ⟨?_, (ih h).2 hf⟩
        rw [hf] at hline
        exact of_decide_eq_true hline

private theorem listItems_of_itemsAlike {lines : List Str} (h : itemsAlike lines = true) :
    Desktop.reading.listItems lines = daemonReading.listItems lines := by
  induction lines with
  | nil => rfl
  | cons line rest ih =>
    rw [itemsAlike, Bool.and_eq_true, decide_eq_true_eq] at h
    obtain ⟨hitem, h⟩ := h
    rw [Reading.listItems, Reading.listItems.eq_2 daemonReading]
    have hjs : ("- ".toList.isPrefixOf (Desktop.reading.trim line)) = isItem (Str.trim line) := hitem
    have hrust : ("- ".toList.isPrefixOf (daemonReading.trim line)) = isItem (Str.trim line) := rfl
    rw [hjs, hrust]
    cases hcase : isItem (Str.trim line) with
    | false => rfl
    | true =>
      simp only [hcase, Bool.not_true, Bool.false_or, Bool.and_eq_true] at h
      obtain ⟨⟨hline, htext⟩, hrest⟩ := h
      have htrim : Desktop.reading.trim line = daemonReading.trim line := of_decide_eq_true hline
      have htext : Desktop.reading.unquote ((daemonReading.trim line).drop 2) =
          daemonReading.unquote ((daemonReading.trim line).drop 2) := unquote_of_trimsAlike htext
      rw [htrim, htext, ih hrest]

/-- Trimming twice is trimming once. -/
theorem Reading.trim_trim (r : Reading) (s : Str) : r.trim (r.trim s) = r.trim s := by
  have hsuffix : r.trim s <:+ s.rdropWhile r.isSpace := List.dropWhile_suffix _
  have hright : (r.trim s).rdropWhile r.isSpace = r.trim s := by
    rw [List.rdropWhile_eq_self_iff]
    intro hne
    have hne' : s.rdropWhile r.isSpace ≠ [] := fun h => hne (by rw [Reading.trim, h]; rfl)
    rw [hsuffix.getLast hne]
    exact List.rdropWhile_last_not r.isSpace s hne'
  rw [Reading.trim, hright]
  exact List.dropWhile_idempotent _ _

/-- A value is read alike behind a key. -/
private theorem readValue_of_valueAlike {text : Str} {rest : List Str}
    (htext : Str.jsTrim text = Str.trim text) (h : valueAlike text rest = true) :
    Desktop.reading.readValue text rest = daemonReading.readValue text rest := by
  unfold valueAlike at h
  unfold Reading.readValue
  split
  · next hblock =>
    rw [if_pos hblock] at h
    obtain ⟨hcollect, hfold⟩ := collectBlock_of_blockAlike h
    have hread : Desktop.reading.readBlock (decide (text.head? = some '>')) rest =
        daemonReading.readBlock (decide (text.head? = some '>')) rest := by
      unfold Reading.readBlock
      rw [hcollect]
      simp only
      split
      · next hf =>
        have htrim : ∀ l ∈ (daemonReading.collectBlock none rest).1.rdropWhile (· = []),
            Desktop.reading.trim l = daemonReading.trim l :=
          fun l hl => hfold hf l ((List.rdropWhile_prefix _ _).subset hl)
        rw [List.map_congr_left htrim]
      · rfl
    rw [hread]
  next hblock =>
  rw [if_neg hblock] at h
  split
  · next hempty =>
    rw [if_pos hempty] at h
    rw [listItems_of_itemsAlike h]
  next hempty =>
  rw [if_neg hempty] at h
  split
  · next hlist =>
    rw [if_pos hlist, Bool.and_eq_true, List.all_eq_true] at h
    have hinner : Desktop.reading.trim text.tail.dropLast =
        daemonReading.trim text.tail.dropLast := of_decide_eq_true h.1
    have hparts : ∀ part ∈ (daemonReading.trim text.tail.dropLast).splitOn ',',
        Desktop.reading.unquote part = daemonReading.unquote part :=
      fun part hpart => unquote_of_trimsAlike (h.2 part hpart)
    simp only [hinner, List.map_congr_left hparts]
  · rw [unquote_of_trimsAlike (decide_eq_true htext)]

/-- A line with a key is neither blank nor a comment, so only the key of a line counts. -/
private theorem assignments_line (r : Reading) {line : Str} (rest : List Str)
    (hkey : ∀ parts, r.splitKey line = some parts →
      ∃ c ∈ line.head?, r.isSpace c = false ∧ c ≠ '#') :
    r.assignments 0 (line :: rest) =
      match r.splitKey line with
      | none => r.assignments 0 rest
      | some (key, text) =>
        (key, (r.readValue text rest).1) :: r.assignments (r.readValue text rest).2 rest := by
  rw [Reading.assignments]
  split
  · next hskip =>
    cases hsplit : r.splitKey line with
    | none => rfl
    | some parts =>
      obtain ⟨c, hc, hspace, hhash⟩ := hkey parts hsplit
      obtain ⟨t, rfl⟩ := List.head?_eq_some_iff.mp hc
      rw [Bool.or_eq_true, decide_eq_true_eq, decide_eq_true_eq] at hskip
      rcases hskip with hblank | hcomment
      · -- a blank line is white space from its first character on
        have hall : ∀ d ∈ (c :: t).rdropWhile r.isSpace, r.isSpace d = true :=
          List.dropWhile_eq_nil_iff.mp hblank
        have hnil := List.rdropWhile_eq_nil_iff.mpr hall
        rw [List.rdropWhile_idempotent] at hnil
        have := List.rdropWhile_eq_nil_iff.mp hnil c List.mem_cons_self
        rw [hspace] at this
        cases this
      · rw [List.dropWhile_cons_of_neg (by simp [hspace])] at hcomment
        exact absurd (Option.some.inj hcomment) hhash
  · rfl

private theorem head_of_isKey_takeWhile {line : Str}
    (h : isKey (line.takeWhile isKeyChar) = true) : ∃ c ∈ line.head?, isKeyStart c = true := by
  cases line with
  | nil => cases h
  | cons c line =>
    rw [List.takeWhile_cons] at h
    split at h
    · rw [isKey, Bool.and_eq_true] at h
      exact ⟨c, rfl, h.1⟩
    · cases h

/-- Where the region is read alike, both parsers give the same assignments, none of which sets the
    prototype. -/
theorem assignments_of_regionAlike {n : Nat} {lines : List Str} (h : regionAlike n lines = true) :
    Desktop.reading.assignments n lines = daemonReading.assignments n lines ∧
      ∀ p ∈ daemonReading.assignments n lines, p.1 ≠ "__proto__".toList := by
  induction lines generalizing n with
  | nil => cases n <;> exact ⟨rfl, fun _ hp => absurd hp List.not_mem_nil⟩
  | cons line rest ih =>
    cases n with
    | succ n => exact ih h
    | zero =>
      rw [regionAlike, Bool.and_eq_true] at h
      obtain ⟨hline, h⟩ := h
      have hsplit : Desktop.reading.splitKey line = splitKey line := (splitKey_eq_iff line).mpr hline
      have hdaemon : daemonReading.splitKey line = splitKey line := rfl
      have hhead : ∀ parts, splitKey line = some parts → ∃ c ∈ line.head?, isKeyStart c = true := by
        intro parts hparts
        rw [splitKey_eq] at hparts
        split at hparts
        · next hkey => exact head_of_isKey_takeWhile (Bool.and_eq_true_iff.mp hkey).1
        · cases hparts
      rw [assignments_line daemonReading rest, assignments_line Desktop.reading rest, hsplit, hdaemon]
      · cases hparts : splitKey line with
        | none =>
          rw [hparts] at h
          exact ih h
        | some parts =>
          obtain ⟨key, text⟩ := parts
          rw [hparts] at h
          simp only [Bool.and_eq_true, decide_eq_true_eq] at h
          obtain ⟨⟨hproto, hvalue⟩, hrest⟩ := h
          -- the text is trimmed under both languages, as both find it
          have htext : Str.jsTrim text = Str.trim text := by
            obtain ⟨t, ht⟩ : ∃ t, Str.trim t = text := by
              rw [splitKey_eq] at hparts
              split at hparts
              · exact ⟨_, (Prod.mk.inj (Option.some.inj hparts)).2⟩
              · cases hparts
            obtain ⟨u, hu⟩ : ∃ u, Str.jsTrim u = text := by
              have hjs : Desktop.splitKey line = some (key, text) := hsplit.trans hparts
              unfold Desktop.splitKey at hjs
              simp only at hjs
              split at hjs
              · split at hjs
                · split at hjs
                  · cases hjs
                  · exact ⟨_, (Prod.mk.inj (Option.some.inj hjs)).2⟩
                · cases hjs
              · cases hjs
            calc Str.jsTrim text = text := by rw [← hu]; exact Desktop.reading.trim_trim u
              _ = Str.trim text := by rw [← ht]; exact (daemonReading.trim_trim t).symm
          have hread := readValue_of_valueAlike htext hvalue
          simp only [hread]
          refine ⟨congrArg (_ :: ·) (ih hrest).1, ?_⟩
          rw [List.forall_mem_cons]
          exact ⟨hproto, (ih hrest).2⟩
      · intro parts hparts
        obtain ⟨c, hc, hstart⟩ := hhead parts (hsplit ▸ hparts)
        obtain ⟨hspace, hhash, -⟩ := not_special_of_isKeyStart hstart
        have hbom : c.toNat ≠ 0xFEFF := by
          have := toNat_of_isKeyStart hstart
          omega
        exact ⟨c, hc, by simp [Desktop.reading, Str.isJsWhiteSpace, hspace, hbom], hhash⟩
      · intro parts hparts
        obtain ⟨c, hc, hstart⟩ := hhead parts hparts
        obtain ⟨hspace, hhash, -⟩ := not_special_of_isKeyStart hstart
        exact ⟨c, hc, hspace, hhash⟩

/-! ## The documents -/

/-- Both parsers read the region of the document alike. -/
def documentAlike (content : Str) : Bool :=
  match cutFrontmatter ((normalizeNewlines content).splitOn '\n') with
  | none => true
  | some (region, _) => regionAlike 0 region

/-- Without a `__proto__` the object has the properties that are inserted. -/
private theorem collectObject_eq {l : List (Str × FrontmatterValue)}
    (h : ∀ p ∈ l, p.1 ≠ "__proto__".toList) : Desktop.collectObject l = collectMap l := by
  have hfold : ∀ m : Std.ExtTreeMap Str FrontmatterValue,
      l.foldl (fun data entry =>
          if entry.1 = "__proto__".toList then data else data.insert entry.1 entry.2) m =
        l.foldl (fun data entry => data.insert entry.1 entry.2) m := by
    induction l with
    | nil => exact fun _ => rfl
    | cons p l ih =>
      intro m
      obtain ⟨key, value⟩ := p
      have hkey : key ≠ "__proto__".toList := h _ List.mem_cons_self
      simp only [List.foldl_cons, if_neg hkey]
      exact ih (fun q hq => h q (List.mem_cons_of_mem _ hq)) _
  exact hfold ∅

/-- The flag and the body are the same in any case. -/
theorem parsers_agree_body (content : Str) :
    (Desktop.parseFrontmatter content).hasFrontmatter = (parseFrontmatter content).hasFrontmatter ∧
      (Desktop.parseFrontmatter content).body = (parseFrontmatter content).body := by
  unfold Desktop.parseFrontmatter parseFrontmatter parseWith
  simp only
  split <;> exact ⟨rfl, rfl⟩

/-- Where they read the region alike, the two parsers agree on the document. -/
theorem parsers_agree {content : Str} (h : documentAlike content = true) :
    Desktop.parseFrontmatter content = parseFrontmatter content := by
  unfold documentAlike at h
  unfold Desktop.parseFrontmatter parseFrontmatter parseWith
  simp only
  split
  · rfl
  · next region after hcut =>
    rw [hcut] at h
    obtain ⟨hread, hproto⟩ := assignments_of_regionAlike h
    rw [hread, collectObject_eq hproto]

/-- A document with all kinds of values. -/
theorem parsers_agree_values :
    documentAlike "---\na: \"x\"\nb:\n  - p\nc: |\n  q\nd: [r, s]\n---\n".toList = true ∧
      Desktop.parseFrontmatter "---\na: \"x\"\nb:\n  - p\nc: |\n  q\nd: [r, s]\n---\n".toList =
        parseFrontmatter "---\na: \"x\"\nb:\n  - p\nc: |\n  q\nd: [r, s]\n---\n".toList :=
  ⟨by decide, parsers_agree (by decide +kernel)⟩

/-- White space before the colon is a key for the desktop only. -/
theorem parsers_differ :
    ¬ ∀ content, Desktop.parseFrontmatter content = parseFrontmatter content := by
  intro h
  have hdata := congrArg (fun parsed => parsed.data["name".toList]?)
    (h "---\nname : x\n---\n".toList)
  revert hdata
  decide

end TeamClu.Skills
