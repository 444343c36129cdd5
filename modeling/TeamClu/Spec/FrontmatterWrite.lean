import TeamClu.ForStd.TreeMap
import TeamClu.Spec.FrontmatterLines

/-!
# Rewriting a frontmatter

`parse_write` says what the daemon reads in the document that `write_frontmatter` gives: each value as
it is reread, and the body without the newline it starts with.  A rewrite keeps the data and the body
when the values can be written and the body neither starts with a newline nor holds a `\r\n`, and
only then (`writeFrontmatter_preserves_iff`).
-/

namespace TeamClu.Skills

/-! ## Keys -/

/-- What the parser reads as a key is one. -/
theorem isKey_of_mem_assignments {n : Nat} {lines : List Str} {p : Str × FrontmatterValue}
    (hp : p ∈ daemonReading.assignments n lines) : isKey p.1 = true := by
  induction lines generalizing n with
  | nil =>
    cases n <;> exact absurd hp List.not_mem_nil
  | cons line lines ih =>
    cases n with
    | succ n => exact ih hp
    | zero =>
      rw [Reading.assignments] at hp
      split at hp
      · exact ih hp
      · split at hp
        · exact ih hp
        · next key text hsplit =>
          rcases List.mem_cons.mp hp with rfl | hp
          · have hsplit : splitKey line = some (key, text) := hsplit
            unfold splitKey at hsplit
            split at hsplit
            · cases hsplit
            · split at hsplit
              · next hkey =>
                obtain ⟨rfl, -⟩ := Prod.mk.inj (Option.some.inj hsplit)
                exact hkey
              · cases hsplit
          · exact ih hp

/-- Collecting sets the keys of the assignments. -/
private theorem getElem?_foldl_insert {k : Str} {v : FrontmatterValue}
    {l : List (Str × FrontmatterValue)} {m : Std.ExtTreeMap Str FrontmatterValue}
    (h : (l.foldl (fun data (key, value) => data.insert key value) m)[k]? = some v) :
    (k, v) ∈ l ∨ m[k]? = some v := by
  induction l generalizing m with
  | nil => exact Or.inr h
  | cons p l ih =>
    rcases ih h with hmem | hm
    · exact Or.inl (List.mem_cons_of_mem _ hmem)
    · rw [TreeMap.get_insert] at hm
      split at hm
      · next hk =>
        obtain rfl := Option.some.inj hm
        exact Or.inl (hk ▸ List.mem_cons_self)
      · exact Or.inr hm

/-- The keys of a document are keys. -/
theorem isKey_of_parseFrontmatter {content k : Str} {v : FrontmatterValue}
    (h : (parseFrontmatter content).data[k]? = some v) : isKey k = true := by
  unfold parseFrontmatter parseWith at h
  simp only at h
  split at h
  · simp at h
  · rcases getElem?_foldl_insert h with hmem | hm
    · exact isKey_of_mem_assignments hmem
    · simp at hm

/-- So are those of the merged data, when the updates have keys. -/
theorem isKey_of_mergedData {content : Str} {updates : List (Str × Option FrontmatterValue)}
    (hkeys : ∀ update ∈ updates, isKey update.1 = true) {k : Str} {v : FrontmatterValue}
    (h : (mergedData content updates)[k]? = some v) : isKey k = true := by
  have hfold : ∀ us : List (Str × Option FrontmatterValue), (∀ u ∈ us, isKey u.1 = true) →
      ∀ m : Std.ExtTreeMap Str FrontmatterValue, (∀ k v, m[k]? = some v → isKey k = true) →
        ∀ k v, (us.foldl applyUpdate m)[k]? = some v → isKey k = true := by
    intro us
    induction us with
    | nil => exact fun _ _ hm => hm
    | cons update us ih =>
      refine fun hus m hm => ih (fun u hu => hus u (List.mem_cons_of_mem _ hu)) _ ?_
      intro k v hk
      unfold applyUpdate at hk
      split at hk
      · rw [TreeMap.get_insert] at hk
        split at hk
        · next heq => exact heq ▸ hus update List.mem_cons_self
        · exact hm k v hk
      · rw [TreeMap.get_erase] at hk
        split at hk
        · cases hk
        · exact hm k v hk
  exact hfold updates hkeys _ (fun k v => isKey_of_parseFrontmatter) k v h

/-! ## Reading a written document -/

/-- The order of emission has the keys of the data. -/
theorem mem_orderedKeys {merged : Std.ExtTreeMap Str FrontmatterValue} {keyOrder : List Str} {k : Str} :
    k ∈ orderedKeys merged keyOrder ↔ ∃ v, merged[k]? = some v := by
  have hcontains : merged.contains k = true ↔ ∃ v, merged[k]? = some v := by
    rw [Std.ExtTreeMap.contains_eq_isSome_getElem?, Option.isSome_iff_exists]
  rw [orderedKeys, List.mem_append, List.mem_filter, List.mem_filter, Std.ExtTreeMap.mem_keys,
    ← Std.ExtTreeMap.contains_iff_mem, hcontains]
  by_cases hk : k ∈ keyOrder <;> simp [hk]

/-- The lines between the fences. -/
def regionLines (merged : Std.ExtTreeMap Str FrontmatterValue) (keys : List Str) : List Str :=
  keys.flatMap fun k => (merged[k]?.map (entryLines k)).getD []

theorem serializeData_eq (merged : Std.ExtTreeMap Str FrontmatterValue) (keyOrder : List Str) :
    serializeData merged keyOrder =
      Lines.unlines '\n' (regionLines merged (orderedKeys merged keyOrder)) := by
  unfold serializeData regionLines
  induction orderedKeys merged keyOrder with
  | nil => rfl
  | cons k keys ih =>
    rw [List.flatMap_cons, List.flatMap_cons, Lines.unlines_append, ih]
    cases merged[k]? with
    | none => rfl
    | some v => exact congrArg (· ++ _) (serializeEntry_eq k v)

/-- The assignments that are read where `keys` were written. -/
def rereadEntries (merged : Std.ExtTreeMap Str FrontmatterValue) (keys : List Str) :
    List (Str × FrontmatterValue) :=
  keys.filterMap fun k => merged[k]?.map fun v => (k, reread v)

/-- A fence starts with a dash. -/
private theorem isFence_eq_false {line : Str} (h : ∀ c ∈ line.head?, c ≠ '-') :
    isFence line = false := by
  rw [isFence, decide_eq_false_iff_not]
  intro heq
  have hpre : "---".toList <+: line := heq ▸ List.rdropWhile_prefix _ _
  obtain ⟨t, rfl⟩ := hpre
  exact h '-' rfl rfl

section Region

variable {merged : Std.ExtTreeMap Str FrontmatterValue}
  (hmerged : ∀ k v, merged[k]? = some v → isKey k = true)

include hmerged

private theorem startsKey_regionLines (keys : List Str) :
    StartsKey ((regionLines merged keys).map withoutCr) := by
  induction keys with
  | nil => exact fun _ h => (by cases h)
  | cons k keys ih =>
    rw [regionLines, List.flatMap_cons]
    cases hk : merged[k]? with
    | none => exact ih
    | some v =>
      rintro line ⟨⟩
      rw [withoutCr_eq_self (getLast_entryText k v)]
      have hkey := hmerged k v hk
      cases k with
      | nil => exact absurd hkey (by decide)
      | cons c k =>
        simp only [isKey, Bool.and_eq_true] at hkey
        exact ⟨c, rfl, hkey.1⟩

/-- The region is read entry by entry. -/
theorem assignments_regionLines (keys : List Str) :
    daemonReading.assignments 0 ((regionLines merged keys).map withoutCr) =
      rereadEntries merged keys := by
  induction keys with
  | nil => rfl
  | cons k keys ih =>
    have hcons : regionLines merged (k :: keys) =
        (merged[k]?.map (entryLines k)).getD [] ++ regionLines merged keys := rfl
    rw [hcons, List.map_append, rereadEntries]
    cases hk : merged[k]? with
    | none =>
      rw [List.filterMap_cons_none (by rw [hk]; rfl)]
      exact ih
    | some v =>
      rw [List.filterMap_cons_some (by rw [hk]; rfl), Option.map_some, Option.getD_some,
        assignments_entry (hmerged k v hk) v (startsKey_regionLines hmerged keys), ih]
      rfl

/-- No line of the region is a fence or has a newline. -/
private theorem regionLines_facts {keys : List Str} {l : Str} (hl : l ∈ regionLines merged keys) :
    isFence (withoutCr l) = false ∧ '\n' ∉ l := by
  obtain ⟨k, -, hmem⟩ := List.mem_flatMap.mp hl
  cases hk : merged[k]? with
  | none =>
    rw [hk] at hmem
    exact absurd hmem List.not_mem_nil
  | some v =>
    rw [hk, Option.map_some, Option.getD_some] at hmem
    have hkey := hmerged k v hk
    cases k with
    | nil => exact absurd hkey (by decide)
    | cons c k =>
      simp only [isKey, Bool.and_eq_true, List.all_eq_true] at hkey
      have hnewline : '\n' ∉ c :: k := by
        rintro (_ | ⟨_, hmem⟩)
        · exact absurd hkey.1 (by decide)
        · exact absurd (hkey.2 _ hmem) (by decide)
      refine ⟨isFence_eq_false fun d hd => ?_, newline_not_mem_entryLines hnewline hmem⟩
      rcases List.mem_cons.mp hmem with rfl | htail
      · rw [withoutCr_eq_self (getLast_entryText _ v)] at hd
        obtain rfl : c = d := Option.some.inj hd
        exact (not_special_of_isKeyStart hkey.1).2.2.1
      · rw [(indented_entryTail htail).withoutCr d hd]
        decide

end Region

/-- The body that is written. -/
def writtenBody (parsed : ParsedFrontmatter) : Str :=
  if parsed.hasFrontmatter && parsed.body.head? = some '\n' then parsed.body.tail else parsed.body

/-- A written document are its lines, and the body. -/
theorem writeFrontmatter_eq (content : Str) (updates : List (Str × Option FrontmatterValue))
    (keyOrder : List Str) :
    writeFrontmatter content updates keyOrder =
      Lines.unlines '\n' ("---".toList :: (regionLines (mergedData content updates)
        (orderedKeys (mergedData content updates) keyOrder) ++ ["---".toList])) ++
          writtenBody (parseFrontmatter content) := by
  have hbody : ∀ out body : Str,
      (if body.head? = some '\n' then out ++ body else out ++ '\n' :: body) =
        out ++ '\n' :: (if body.head? = some '\n' then body.tail else body) := by
    intro out body
    split
    · next h =>
      obtain ⟨t, rfl⟩ := List.head?_eq_some_iff.mp h
      rfl
    · rfl
  unfold writeFrontmatter writtenBody
  simp only [hbody, serializeData_eq]
  cases (parseFrontmatter content).hasFrontmatter <;> simp

/-- What is read in a written document. -/
theorem parse_write {content : Str} {updates : List (Str × Option FrontmatterValue)}
    (hkeys : ∀ update ∈ updates, isKey update.1 = true) (keyOrder : List Str) :
    parseFrontmatter (writeFrontmatter content updates keyOrder) =
      { data := collectMap (rereadEntries (mergedData content updates)
          (orderedKeys (mergedData content updates) keyOrder))
        body := normalizeNewlines (writtenBody (parseFrontmatter content))
        hasFrontmatter := true } := by
  have hmerged : ∀ k v, (mergedData content updates)[k]? = some v → isKey k = true :=
    fun (k : Str) (v : FrontmatterValue) => isKey_of_mergedData hkeys
  rw [writeFrontmatter_eq]
  generalize mergedData content updates = merged at *
  generalize orderedKeys merged keyOrder = keys
  have hlines : ∀ l ∈ "---".toList :: (regionLines merged keys ++ ["---".toList]), '\n' ∉ l := by
    intro l hl
    rcases List.mem_cons.mp hl with rfl | hl
    · decide
    rcases List.mem_append.mp hl with hl | hl
    · exact (regionLines_facts hmerged hl).2
    · rw [List.mem_singleton.mp hl]
      decide
  have hfree : ∀ l ∈ ("---".toList :: (regionLines merged keys ++ ["---".toList])).map withoutCr,
      '\n' ∉ l := by
    intro l hl hmem
    obtain ⟨m, hm, rfl⟩ := List.mem_map.mp hl
    exact hlines m hm ((withoutCr_isPrefix m).subset hmem)
  -- the second fence is the first one behind the region
  have hfence : ∀ region after : List Str, (∀ l ∈ region, isFence l = false) →
      (region ++ "---".toList :: after).findIdx? isFence = some region.length := by
    intro region after hregion
    rw [List.findIdx?_append, List.findIdx?_eq_none_iff.mpr hregion, List.findIdx?_cons,
      if_pos (by decide)]
    simp
  have hcut : ∀ after : List Str, cutFrontmatter
      (("---".toList :: (regionLines merged keys ++ ["---".toList])).map withoutCr ++ after) =
        some ((regionLines merged keys).map withoutCr, after) := by
    intro after
    rw [List.map_cons, List.map_append, List.map_singleton,
      @withoutCr_eq_self "---".toList (by decide), List.cons_append,
      List.append_assoc, List.singleton_append, cutFrontmatter, if_pos (by decide), hfence]
    · generalize (regionLines merged keys).map withoutCr = region
      rw [Option.map_some, List.take_left, ← List.drop_drop, List.drop_left]
      rfl
    · intro l hl
      obtain ⟨m, hm, rfl⟩ := List.mem_map.mp hl
      exact (regionLines_facts hmerged hm).1
  unfold parseFrontmatter parseWith
  simp only [normalizeNewlines_unlines hlines, Lines.splitOn_unlines hfree, hcut,
    assignments_regionLines hmerged, List.intercalate_splitOn]

/-- The data that is read: each value as it is reread. -/
theorem getElem?_collectMap_rereadEntries (merged : Std.ExtTreeMap Str FrontmatterValue)
    (keys : List Str) (k : Str) :
    (collectMap (rereadEntries merged keys))[k]? =
      if k ∈ keys then merged[k]?.map reread else none := by
  have hfold : ∀ m : Std.ExtTreeMap Str FrontmatterValue,
      ((rereadEntries merged keys).foldl (fun data (key, value) => data.insert key value) m)[k]? =
        if k ∈ keys then (merged[k]?.map reread).or m[k]? else m[k]? := by
    induction keys with
    | nil => exact fun _ => rfl
    | cons key keys ih =>
      intro m
      cases hkey : merged[key]? with
      | none =>
        rw [rereadEntries, List.filterMap_cons_none (by rw [hkey]; rfl)]
        rw [rereadEntries] at ih
        rw [ih m]
        by_cases hk : k = key
        · simp [hk, hkey]
        · simp [hk]
      | some v =>
        rw [rereadEntries, List.filterMap_cons_some (by rw [hkey]; rfl), List.foldl_cons]
        rw [rereadEntries] at ih
        rw [ih, TreeMap.get_insert]
        by_cases hk : key = k
        · subst hk
          simp [hkey]
        · simp [hk, Ne.symm hk]
  rw [collectMap, hfold]
  simp

/-- The data comes back when all of its values do. -/
theorem collectMap_rereadEntries_iff (merged : Std.ExtTreeMap Str FrontmatterValue)
    (keyOrder : List Str) :
    collectMap (rereadEntries merged (orderedKeys merged keyOrder)) = merged ↔
      ∀ (k : Str) (v : FrontmatterValue), merged[k]? = some v → Writable v := by
  have hget : ∀ k : Str, (collectMap (rereadEntries merged (orderedKeys merged keyOrder)))[k]? =
      merged[k]?.map reread := by
    intro k
    rw [getElem?_collectMap_rereadEntries]
    split
    · rfl
    · next hk =>
      rw [mem_orderedKeys, not_exists] at hk
      cases hmk : merged[k]? with
      | none => rfl
      | some v => exact absurd hmk (hk v)
  constructor
  · intro h k v hk
    have := hget k
    rw [h, hk, Option.map_some, Option.some.injEq] at this
    exact (reread_eq_self_iff v).mp this.symm
  · intro h
    refine Std.ExtTreeMap.ext_getElem? fun k => ?_
    rw [hget]
    cases hk : merged[k]? with
    | none => rfl
    | some v => exact congrArg some ((reread_eq_self_iff v).mpr (h k v hk))

/-! ## What a rewrite keeps -/

/-- What a rewrite of a document should keep. -/
structure Preserved (content : Str) (updates : List (Str × Option FrontmatterValue))
    (keyOrder : List Str) : Prop where
  hasFrontmatter : (parseFrontmatter (writeFrontmatter content updates keyOrder)).hasFrontmatter = true
  /-- The data is that of the document with the updates applied. -/
  data : (parseFrontmatter (writeFrontmatter content updates keyOrder)).data =
    mergedData content updates
  /-- The body is that of the document. -/
  body : (parseFrontmatter (writeFrontmatter content updates keyOrder)).body =
    (parseFrontmatter content).body
  /-- Writing again gives the same document. -/
  again : writeFrontmatter (writeFrontmatter content updates keyOrder) [] keyOrder =
    writeFrontmatter content updates keyOrder

/-- A body that starts with a newline is written without it. -/
private theorem writtenBody_eq {parsed : ParsedFrontmatter} (h : parsed.body.head? ≠ some '\n') :
    writtenBody parsed = parsed.body :=
  if_neg (by simp [h])

/-- Once the data is written, a document is written again when its body comes back. -/
private theorem again_iff {content : Str} {updates : List (Str × Option FrontmatterValue)}
    {keyOrder : List Str}
    (hdata : (parseFrontmatter (writeFrontmatter content updates keyOrder)).data =
      mergedData content updates) :
    writeFrontmatter (writeFrontmatter content updates keyOrder) [] keyOrder =
        writeFrontmatter content updates keyOrder ↔
      writtenBody (parseFrontmatter (writeFrontmatter content updates keyOrder)) =
        writtenBody (parseFrontmatter content) := by
  have hmerged : mergedData (writeFrontmatter content updates keyOrder) [] =
      mergedData content updates := hdata
  rw [writeFrontmatter_eq (writeFrontmatter content updates keyOrder), hmerged]
  conv => lhs; rhs; rw [writeFrontmatter_eq content]
  rw [List.append_cancel_left_eq]

/-- A rewrite keeps the data, the body and itself exactly when the body starts with no newline and
    holds no `\r\n`, and the values can be written. -/
theorem writeFrontmatter_preserves_iff (content : Str)
    (updates : List (Str × Option FrontmatterValue))
    (hkeys : ∀ update ∈ updates, isKey update.1 = true) (keyOrder : List Str) :
    Preserved content updates keyOrder ↔
      (parseFrontmatter content).body.head? ≠ some '\n' ∧
      Str.contains (parseFrontmatter content).body "\r\n".toList = false ∧
      ∀ (k : Str) (v : FrontmatterValue), (mergedData content updates)[k]? = some v → Writable v := by
  have hparse := @parse_write content updates hkeys keyOrder
  have hdata : (parseFrontmatter (writeFrontmatter content updates keyOrder)).data =
      mergedData content updates ↔
        ∀ (k : Str) (v : FrontmatterValue), (mergedData content updates)[k]? = some v → Writable v := by
    rw [hparse]
    exact collectMap_rereadEntries_iff _ keyOrder
  have hbody : (parseFrontmatter (writeFrontmatter content updates keyOrder)).body =
      normalizeNewlines (writtenBody (parseFrontmatter content)) := by rw [hparse]
  have hflag : (parseFrontmatter (writeFrontmatter content updates keyOrder)).hasFrontmatter =
      true := by rw [hparse]
  rw [← normalizeNewlines_eq_self_iff, ← hdata]
  constructor
  · rintro ⟨-, hd, hb, hagain⟩
    have hwritten := (again_iff hd).mp hagain
    have hhead : (parseFrontmatter content).body.head? ≠ some '\n' := by
      intro hhead
      -- a newline at the start is lost, by this rewrite or by the next one
      have htail : (parseFrontmatter content).body.tail.length <
          (parseFrontmatter content).body.length := by
        obtain ⟨t, ht⟩ := List.head?_eq_some_iff.mp hhead
        simp [ht]
      have hlost : writtenBody (parseFrontmatter (writeFrontmatter content updates keyOrder)) =
          (parseFrontmatter content).body.tail := by
        rw [writtenBody, hflag, hb, hhead]
        rfl
      have hlen := length_normalizeNewlines_le (writtenBody (parseFrontmatter content))
      rw [← hbody, hb, ← hwritten, hlost] at hlen
      omega
    rw [hb, writtenBody_eq hhead] at hbody
    exact ⟨hhead, hbody.symm, hd⟩
  · rintro ⟨hhead, hnormal, hd⟩
    rw [writtenBody_eq hhead, hnormal] at hbody
    refine ⟨hflag, hd, hbody, (again_iff hd).mpr ?_⟩
    rw [writtenBody_eq hhead, writtenBody_eq (hbody ▸ hhead), hbody]

/-- A document with an update. -/
theorem writeFrontmatter_preserves_update :
    isKey "tags".toList = true ∧
      (Preserved "---\na: 1\n---\nbody".toList
          [("tags".toList, some (.list ["x: y".toList]))] [] ↔
        (parseFrontmatter "---\na: 1\n---\nbody".toList).body.head? ≠ some '\n' ∧
        Str.contains (parseFrontmatter "---\na: 1\n---\nbody".toList).body "\r\n".toList = false ∧
        ∀ (k : Str) (v : FrontmatterValue),
          (mergedData "---\na: 1\n---\nbody".toList
            [("tags".toList, some (.list ["x: y".toList]))])[k]? = some v → Writable v) :=
  ⟨by decide, writeFrontmatter_preserves_iff _ _ (by decide +kernel) _⟩

/-- A blank line behind the frontmatter is lost. -/
theorem writeFrontmatter_loses_blank_line :
    ¬ ∀ (content : Str) (updates : List (Str × Option FrontmatterValue)) (keyOrder : List Str),
      (∀ update ∈ updates, isKey update.1 = true) → keyOrder.Nodup →
        Preserved content updates keyOrder := by
  intro h
  have hbody := (h "---\na: 1\n---\n\nbody".toList [] [] (fun _ hu => absurd hu List.not_mem_nil)
    List.nodup_nil).body
  revert hbody
  decide

end TeamClu.Skills
