import TeamClu.ForStd.TreeMap
import TeamClu.Spec.LogLines

/-!
# What a durable log says

A log is read as the records whose lines it holds.  `logBytes` writes records, and `open_log` reads
them back: opening a log of records that fit, with whatever a crash left behind them (`Tail`), gives
the state those records replay to, and cuts off a torn tail.

`Holds q rs` says that a queue is what the records `rs` replay to and that its log holds exactly
them; appending and compacting keep that (`holds_appendRecord`, `holds_compact`).  A record *fits*
when its line is one the reader takes: one byte less than what the writer takes.
-/

namespace TeamClu.Mqtt

open JsonText (lit)

open Lines

/-- The log that holds these records. -/
def logBytes {R : Type} (toText : R → Str) (rs : List R) : Bytes :=
  unlines newlineByte (rs.map (encode toText))

/-- The line of the record is one the reader takes. -/
def Fits {R : Type} (toText : R → Str) (r : R) : Prop :=
  (encode toText r).length < MAX_DURABLE_LOG_LINE_BYTES

/-- What the records replay to. -/
def replay {T : Type} (rs : List (LogRecord T)) : Recovered T := rs.foldl Recovered.apply {}

section

variable {R : Type} {toText : R → Str}

@[simp] theorem logBytes_nil : logBytes toText [] = [] := rfl

theorem logBytes_append (rs qs : List R) :
    logBytes toText (rs ++ qs) = logBytes toText rs ++ logBytes toText qs := by
  simp [logBytes]

theorem logBytes_singleton (r : R) : logBytes toText [r] = encodeLine toText r := by
  simp [logBytes, encodeLine]

theorem logBytes_eq_flatMap (rs : List R) : logBytes toText rs = rs.flatMap (encodeLine toText) := by
  induction rs with
  | nil => rfl
  | cons r rs ih =>
    rw [← List.singleton_append, logBytes_append, logBytes_singleton, ih]
    rfl

/-! ## Trimming -/

/-- A text that starts with a brace keeps its start when trimmed. -/
private theorem trim_of_brace (s : Str) :
    ∃ t, Str.trim ('{' :: s) = '{' :: t ∧ '{' :: t <+: '{' :: s := by
  have hpre : List.rdropWhile Str.isWhiteSpace ('{' :: s) <+: '{' :: s :=
    List.rdropWhile_prefix _ _
  cases hdrop : List.rdropWhile Str.isWhiteSpace ('{' :: s) with
  | nil =>
    have hall := List.rdropWhile_eq_nil_iff.mp hdrop '{' List.mem_cons_self
    exact absurd hall (by decide)
  | cons c t =>
    rw [hdrop] at hpre
    obtain ⟨rfl, -⟩ := List.cons_prefix_cons.mp hpre
    refine ⟨t, ?_, hpre⟩
    rw [Str.trim, hdrop]
    rfl

/-- Trimming leaves an object as it is. -/
theorem trim_object {s : Str} (h : IsObjectLine s) : Str.trim s = s := by
  obtain ⟨-, body, rfl⟩ := h
  have hlast : Str.isWhiteSpace '}' = false := by decide
  rw [Str.trim, List.rdropWhile_concat_neg _ _ _ (by simp [hlast])]
  rfl

/-- Trimming the start of an object gives a start of it that is not longer. -/
private theorem trim_torn {s t : Str} (h : IsObjectLine t) (hs : s <+: t) (hne : s ≠ [])
    (hst : s ≠ t) : Str.trim s ≠ [] ∧ Str.trim s <+: t ∧ Str.trim s ≠ t := by
  obtain ⟨-, body, rfl⟩ := h
  cases s with
  | nil => exact absurd rfl hne
  | cons c s =>
    rw [List.cons_append] at hs hst
    obtain ⟨rfl, -⟩ := List.cons_prefix_cons.mp hs
    obtain ⟨u, hu, hpre⟩ := trim_of_brace s
    rw [hu]
    refine ⟨List.cons_ne_nil _ _, hpre.trans hs, fun heq => hst ?_⟩
    rw [List.cons_append] at heq
    exact hs.eq_of_length_le (heq ▸ hpre.length_le)

/-! ## Reading the lines of records -/

theorem newline_not_mem_encode (serde : Serde toText) (r : R) : newlineByte ∉ encode toText r :=
  Str.newline_not_mem_utf8 (serde.objectLine r).1

/-- Lines of records that fit are applied one after another. -/
theorem readLines_records {σ : Type} {callback : σ → LogLine → Except QueueError σ}
    {apply : σ → R → σ} {tail : Bytes}
    (hcb : ∀ st lineNo start isFinal r,
      callback st { lineNo, start, text := toText r, isFinal } = .ok (apply st r))
    {rs : List R} (hfit : ∀ r ∈ rs, Fits toText r) (lineNo start : Nat) (st : σ) :
    readLines callback tail (rs.map (encode toText)) lineNo start st =
      readLines callback tail [] (lineNo + rs.length) (start + (logBytes toText rs).length)
        (rs.foldl apply st) := by
  -- the induction is on the records, one line each
  induction rs generalizing lineNo start st with
  | nil => rfl
  | cons r rs ih =>
    have hr := hfit r List.mem_cons_self
    have hrest := ih (fun q hq => hfit q (List.mem_cons_of_mem _ hq)) (lineNo + 1)
      (start + ((encode toText r).length + 1)) (apply st r)
    have hlength : (logBytes toText (r :: rs)).length =
        (encode toText r).length + 1 + (logBytes toText rs).length := by
      simp only [logBytes, List.map_cons, unlines_cons, List.length_append, List.length_cons]
      omega
    have hutf8 : Str.fromUtf8 (encode toText r) = some (toText r) := Str.fromUtf8_utf8 _
    have hlen : ¬ (encode toText r).length + 1 > MAX_DURABLE_LOG_LINE_BYTES := by
      unfold Fits at hr
      omega
    -- one line is read, and the rest by the induction
    conv_lhs => rw [List.map_cons, readLines, if_neg hlen, hutf8]
    simp only [hcb, hrest, List.foldl_cons, List.length_cons, hlength]
    congr 1 <;> omega

/-- A line of a record that does not fit stops the reading. -/
theorem readLines_tooLong {σ : Type} {callback : σ → LogLine → Except QueueError σ}
    {apply : σ → R → σ}
    (hcb : ∀ st lineNo start isFinal r,
      callback st { lineNo, start, text := toText r, isFinal } = .ok (apply st r))
    {rs : List R} (hfit : ∃ r ∈ rs, ¬ Fits toText r) (lineNo start : Nat) (st : σ) (tail : Bytes) :
    ∃ n, readLines callback tail (rs.map (encode toText)) lineNo start st =
      .error (.lineTooLong n) := by
  induction rs generalizing lineNo start st with
  | nil => simp at hfit
  | cons r rs ih =>
    -- this record fits: the long one is behind it
    by_cases hr : Fits toText r
    · have hrest : ∃ q ∈ rs, ¬ Fits toText q := by
        obtain ⟨q, hq, hlong⟩ := hfit
        rcases List.mem_cons.mp hq with rfl | hq
        · exact absurd hr hlong
        · exact ⟨q, hq, hlong⟩
      obtain ⟨n, hn⟩ := ih hrest (lineNo + 1) (start + ((encode toText r).length + 1)) (apply st r)
      have hutf8 : Str.fromUtf8 (encode toText r) = some (toText r) := Str.fromUtf8_utf8 _
      refine ⟨n, ?_⟩
      rw [List.map_cons, readLines, if_neg (by unfold Fits at hr; omega), hutf8]
      simp only [hcb, hn]
    · -- this is the long one
      refine ⟨lineNo, ?_⟩
      rw [List.map_cons, readLines, if_pos (by unfold Fits at hr; omega)]

/-! ## Tails -/

/-- What may follow the last newline of a log, and the records it adds: nothing, the start of a
    record that decodes, or a whole record without its newline. -/
inductive Tail (toText : R → Str) : Bytes → List R → Prop where
  | none : Tail toText [] []
  | torn {r : R} {text : Str} (hpre : text <+: toText r) (hne : text ≠ [])
      (hlt : text ≠ toText r) (hlen : Str.utf8Len text ≤ MAX_DURABLE_LOG_LINE_BYTES) :
      Tail toText (Str.utf8 text) []
  | complete {r : R} (hlen : (encode toText r).length ≤ MAX_DURABLE_LOG_LINE_BYTES) :
      Tail toText (encode toText r) [r]

theorem Tail.newline_not_mem (serde : Serde toText) {tail : Bytes} {extra : List R}
    (h : Tail toText tail extra) : newlineByte ∉ tail := by
  cases h with
  | none => exact List.not_mem_nil
  | torn hpre =>
    exact Str.newline_not_mem_utf8 fun hmem =>
      (serde.objectLine _).1 (hpre.subset hmem)
  | complete => exact newline_not_mem_encode serde _

end

/-! ## Opening a queue's log -/

namespace DurableQueue

variable {T : Type} {itemText : T → Str} (serde : Serde (LogRecord.text itemText))

/-- A record's line applies the record. -/
private theorem openLine_record (st : Recovered T) (lineNo start : Nat) (isFinal : Bool)
    (r : LogRecord T) :
    openLine serde st { lineNo, start, text := LogRecord.text itemText r, isFinal } =
      .ok (st.apply r) := by
  obtain ⟨hnl, body, hbody⟩ := serde.objectLine r
  unfold openLine LogLine.trim
  simp only [trim_object (serde.objectLine r), serde.fromText_toText]
  rw [if_neg (by rw [hbody]; exact List.cons_ne_nil _ _)]

/-- A torn last line is cut off. -/
private theorem openLine_torn (st : Recovered T) (lineNo start : Nat) {r : LogRecord T} {text : Str}
    (hpre : text <+: LogRecord.text itemText r) (hne : text ≠ [])
    (hlt : text ≠ LogRecord.text itemText r) :
    openLine serde st { lineNo, start, text, isFinal := true } =
      .ok { st with truncatedAt := some start } := by
  obtain ⟨h1, h2, h3⟩ := trim_torn (serde.objectLine r) hpre hne hlt
  unfold openLine LogLine.trim
  simp only [serde.fromText_torn r _ h2 h3, if_neg h1, if_true]

/-- Replaying records never cuts the file. -/
private theorem truncatedAt_foldl_apply (rs : List (LogRecord T)) (st : Recovered T) :
    (rs.foldl Recovered.apply st).truncatedAt = st.truncatedAt := by
  induction rs generalizing st with
  | nil => rfl
  | cons r rs ih => rw [List.foldl_cons, ih]; cases r <;> rfl

/-- A log of records that fit, and whatever a crash left behind them, opens to what the records
    replay to; a torn tail is cut off. -/
theorem open_log {rs : List (LogRecord T)} (hfit : ∀ r ∈ rs, Fits (LogRecord.text itemText) r)
    {tail : Bytes} {extra : List (LogRecord T)} (htail : Tail (LogRecord.text itemText) tail extra)
    (sizes : List Nat) :
    «open» serde (logBytes (LogRecord.text itemText) rs ++ tail) sizes =
      .ok { file := logBytes (LogRecord.text itemText) rs ++
              extra.flatMap (encode (LogRecord.text itemText))
            entries := (replay (rs ++ extra)).entries, nextId := (replay (rs ++ extra)).nextId
            opsSinceCompact := 0 } := by
  have hlines : ∀ l ∈ rs.map (encode (LogRecord.text itemText)), newlineByte ∉ l := by
    intro l hl
    obtain ⟨r, -, rfl⟩ := List.mem_map.mp hl
    exact newline_not_mem_encode serde r
  have hread := forEachLogLine_eq_readLines (openLine serde) sizes hlines
    (htail.newline_not_mem serde) ({} : Recovered T)
  rw [readLines_records (openLine_record serde) hfit] at hread
  have hcut := truncatedAt_foldl_apply rs ({} : Recovered T)
  unfold «open» logBytes
  rw [hread]
  -- nothing, a torn record or a whole record without its newline is left at the end
  cases htail with
  | none =>
    simp only [readLines, List.length_nil, Nat.not_lt_zero, if_false, if_true, hcut,
      List.append_nil, List.flatMap_nil, replay, gt_iff_lt, Option.elim_none]
  | torn hpre hne hlt hlen =>
    have hutf8 : ¬ Str.utf8 _ = [] := fun h => hne (Str.utf8_injective (t := []) h)
    simp only [readLines, Str.length_utf8, Nat.not_lt.mpr hlen, if_false, hutf8, Str.fromUtf8_utf8,
      openLine_torn serde _ _ _ hpre hne hlt, Nat.zero_add, List.append_nil, List.flatMap_nil,
      replay, Option.elim_some, logBytes, List.take_left']
  | @complete r hlen =>
    have hutf8 : ¬ encode (LogRecord.text itemText) r = [] := by
      obtain ⟨-, body, hbody⟩ := serde.objectLine r
      intro h
      have htext := Str.utf8_injective (t := []) h
      rw [hbody] at htext
      exact List.cons_ne_nil _ _ htext
    have hdecode : Str.fromUtf8 (encode (LogRecord.text itemText) r) =
        some (LogRecord.text itemText r) := Str.fromUtf8_utf8 _
    have hcut' := truncatedAt_foldl_apply (rs ++ [r]) ({} : Recovered T)
    rw [List.foldl_append] at hcut'
    rw [List.foldl_cons, List.foldl_nil] at hcut'
    simp only [readLines, Nat.not_lt.mpr hlen, if_false, hutf8, hdecode, openLine_record, hcut',
      replay, Option.elim_none, List.foldl_append, List.foldl_cons, List.foldl_nil,
      List.flatMap_cons, List.flatMap_nil, List.append_nil]

/-- A log with a record that does not fit does not open. -/
theorem open_tooLong {rs : List (LogRecord T)}
    (hfit : ∃ r ∈ rs, ¬ Fits (LogRecord.text itemText) r) (sizes : List Nat) :
    ∃ n, «open» serde (logBytes (LogRecord.text itemText) rs) sizes = .error (.lineTooLong n) := by
  have hlines : ∀ l ∈ rs.map (encode (LogRecord.text itemText)), newlineByte ∉ l := by
    intro l hl
    obtain ⟨r, -, rfl⟩ := List.mem_map.mp hl
    exact newline_not_mem_encode serde r
  have hread := forEachLogLine_eq_readLines (openLine serde) sizes hlines List.not_mem_nil
    ({} : Recovered T)
  obtain ⟨n, hn⟩ := readLines_tooLong (openLine_record serde) hfit 1 0
    ({} : Recovered T) []
  refine ⟨n, ?_⟩
  rw [List.append_nil] at hread
  unfold «open» logBytes
  rw [hread, hn]

/-! ## The operations -/

/-- The queue is what these records replay to. -/
structure Replays (q : DurableQueue T) (rs : List (LogRecord T)) : Prop where
  entries_eq : q.entries = (replay rs).entries
  nextId_eq : q.nextId = (replay rs).nextId

/-- The ids of a queue: they are `u64`s, and the next one is past every entry's, unless the counter
    has saturated. -/
structure IdsOk (entries : Std.ExtTreeMap Nat T) (nextId : Nat) : Prop where
  pos : 1 ≤ nextId
  le : nextId ≤ U64_MAX
  entry_le : ∀ id ∈ entries, id ≤ U64_MAX
  succ_le : ∀ id ∈ entries, saturatingSucc id ≤ nextId

theorem replay_concat (rs : List (LogRecord T)) (r : LogRecord T) :
    replay (rs ++ [r]) = (replay rs).apply r := by
  simp [replay]

/-- An entry of a replayed log was put by one of its records. -/
theorem put_mem_of_replay {rs : List (LogRecord T)} {id : Nat} {item : T}
    (h : (replay rs).entries[id]? = some item) : .put id item ∈ rs := by
  induction rs using List.reverseRecOn with
  | nil => simp [replay] at h
  | append_singleton rs r ih =>
    rw [replay_concat] at h
    cases r with
    | put i x =>
      simp only [Recovered.apply, Std.ExtTreeMap.getElem?_insert] at h
      split_ifs at h with heq
      · rw [Std.LawfulEqCmp.eq_of_compare heq, Option.some.inj h]
        simp
      · exact List.mem_append_left _ (ih h)
    | ack i =>
      simp only [Recovered.apply, Std.ExtTreeMap.getElem?_erase] at h
      split_ifs at h
      exact List.mem_append_left _ (ih h)
    | watermark n => exact List.mem_append_left _ (ih h)

/-- The queue after a put that found room. -/
def afterPut (itemText : T → Str) (q : DurableQueue T) (item : T) : DurableQueue T :=
  { file := q.file ++ encodeLine (LogRecord.text itemText) (.put q.nextId item)
    entries := q.entries.insert q.nextId item, nextId := saturatingSucc q.nextId
    opsSinceCompact := q.opsSinceCompact + 1 }

/-- A put either finds its record too long or adds it under the next id. -/
theorem put_eq (q : DurableQueue T) (item : T) :
    q.put itemText item =
      if (encode (LogRecord.text itemText) (.put q.nextId item)).length >
          MAX_DURABLE_LOG_LINE_BYTES then
        .error .recordTooLong
      else .ok (q.afterPut itemText item, q.nextId) := by
  simp only [put, appendRecord]
  split_ifs <;> rfl

/-- The record of an acknowledgement fits. -/
theorem fits_ack {id : Nat} (h : id ≤ U64_MAX) :
    Fits (LogRecord.text itemText) (.ack id : LogRecord T) := by
  have hnum : Str.utf8Len (JsonText.natText id) ≤ 20 :=
    JsonText.utf8Len_natText_le (by decide) (by unfold U64_MAX at h; omega)
  unfold Fits encode LogRecord.text MAX_DURABLE_LOG_LINE_BYTES
  rw [Str.length_utf8, Str.utf8Len_append, Str.utf8Len_append,
    show Str.utf8Len (lit "\x7b\"Ack\":\x7b\"id\":") = 13 by rw [lit]; decide,
    show Str.utf8Len (lit "\x7d\x7d") = 2 by rw [lit]; decide]
  omega

/-- The record of a watermark fits. -/
theorem fits_watermark {nextId : Nat} (h : nextId ≤ U64_MAX) :
    Fits (LogRecord.text itemText) (.watermark nextId : LogRecord T) := by
  have hnum : Str.utf8Len (JsonText.natText nextId) ≤ 20 :=
    JsonText.utf8Len_natText_le (by decide) (by unfold U64_MAX at h; omega)
  unfold Fits encode LogRecord.text MAX_DURABLE_LOG_LINE_BYTES
  rw [Str.length_utf8, Str.utf8Len_append, Str.utf8Len_append,
    show Str.utf8Len (lit "\x7b\"Watermark\":\x7b\"next_id\":") = 24 by rw [lit]; decide,
    show Str.utf8Len (lit "\x7d\x7d") = 2 by rw [lit]; decide]
  omega

/-- The queue after an acknowledgement, before any compaction. -/
def afterAck (itemText : T → Str) (q : DurableQueue T) (id : Nat) : DurableQueue T :=
  { q with file := q.file ++ encodeLine (LogRecord.text itemText) (.ack id)
           entries := q.entries.erase id, opsSinceCompact := q.opsSinceCompact + 1 }

/-- An acknowledgement of a pending id always succeeds. -/
theorem ack_eq {q : DurableQueue T} (hq : IdsOk q.entries q.nextId) (id : Nat) :
    q.ack itemText id =
      .ok (if id ∈ q.entries then compactIfNeeded itemText (q.afterAck itemText id) else q) := by
  unfold ack
  by_cases hid : id ∈ q.entries
  · have hfit : Fits (LogRecord.text itemText) (.ack id : LogRecord T) := fits_ack (hq.entry_le id hid)
    unfold Fits at hfit
    rw [if_pos (Std.ExtTreeMap.contains_iff_mem.mpr hid), if_pos hid]
    unfold appendRecord
    rw [if_neg (by omega)]
    rfl
  · rw [if_neg (by rwa [Std.ExtTreeMap.contains_iff_mem]), if_neg hid]

/-- Replaying the puts of a compacted log inserts the entries. -/
private theorem foldl_apply_puts (entries : List (Nat × T)) (st : Recovered T)
    (hid : ∀ entry ∈ entries, saturatingSucc entry.1 ≤ st.nextId) :
    (entries.map fun (id, item) => LogRecord.put id item).foldl Recovered.apply st =
      { st with entries := entries.foldl (fun acc entry => acc.insert entry.1 entry.2) st.entries } := by
  induction entries generalizing st with
  | nil => rfl
  | cons entry entries ih =>
    have hmax : max st.nextId (saturatingSucc entry.1) = st.nextId :=
      Nat.max_eq_left (hid entry List.mem_cons_self)
    have hst : st.apply (.put entry.1 entry.2) =
        { st with entries := st.entries.insert entry.1 entry.2 } := by
      simp only [Recovered.apply, hmax]
    have hrest := ih { st with entries := st.entries.insert entry.1 entry.2 }
      fun e he => hid e (List.mem_cons_of_mem _ he)
    rw [List.map_cons, List.foldl_cons, hst, hrest]
    rfl

/-- A compacted log replays to the queue it was written from. -/
theorem replays_snapshot {q : DurableQueue T} (hq : IdsOk q.entries q.nextId) :
    q.Replays q.snapshot := by
  have hpos : max 1 q.nextId = q.nextId := Nat.max_eq_right hq.pos
  have hids : ∀ entry ∈ q.entries.toList, saturatingSucc entry.1 ≤ q.nextId := by
    intro entry hentry
    refine hq.succ_le entry.1 ?_
    rw [Std.ExtTreeMap.mem_iff_isSome_getElem?,
      Std.ExtTreeMap.mem_toList_iff_getElem?_eq_some.mp hentry]
    rfl
  have hreplay : replay q.snapshot = { entries := q.entries, nextId := q.nextId } := by
    unfold replay snapshot
    rw [List.foldl_cons]
    simp only [Recovered.apply, hpos]
    rw [foldl_apply_puts _ _ hids, TreeMap.foldl_insert_toList]
  exact ⟨by rw [hreplay], by rw [hreplay]⟩

/-- The log a compaction writes. -/
theorem compact_file (q : DurableQueue T) :
    (q.compact itemText).file = logBytes (LogRecord.text itemText) q.snapshot := by
  rw [logBytes_eq_flatMap]
  rfl

/-- The records a compaction writes fit when those of the log do. -/
theorem fits_snapshot {q : DurableQueue T} {rs : List (LogRecord T)} (h : q.Replays rs)
    (hq : IdsOk q.entries q.nextId) (hfit : ∀ r ∈ rs, Fits (LogRecord.text itemText) r) :
    ∀ r ∈ q.snapshot, Fits (LogRecord.text itemText) r := by
  intro r hr
  rcases List.mem_cons.mp hr with rfl | hr
  · exact fits_watermark hq.le
  · obtain ⟨⟨id, item⟩, hentry, rfl⟩ := List.mem_map.mp hr
    have hget := Std.ExtTreeMap.mem_toList_iff_getElem?_eq_some.mp hentry
    rw [h.entries_eq] at hget
    exact hfit _ (put_mem_of_replay hget)

/-- A put adds its record to what the queue replays. -/
theorem replays_afterPut {q : DurableQueue T} {rs : List (LogRecord T)} (h : q.Replays rs)
    (hq : IdsOk q.entries q.nextId) (item : T) :
    (q.afterPut itemText item).Replays (rs ++ [.put q.nextId item]) := by
  have hmax : max q.nextId (saturatingSucc q.nextId) = saturatingSucc q.nextId := by
    have := hq.le
    unfold saturatingSucc
    omega
  constructor
  · rw [replay_concat]
    simp [afterPut, Recovered.apply, h.entries_eq]
  · rw [replay_concat]
    simp only [afterPut, Recovered.apply, ← h.nextId_eq, hmax]

/-- An acknowledgement adds its record to what the queue replays. -/
theorem replays_afterAck {q : DurableQueue T} {rs : List (LogRecord T)} (h : q.Replays rs)
    (id : Nat) : (q.afterAck itemText id).Replays (rs ++ [.ack id]) := by
  constructor
  · rw [replay_concat]
    simp [afterAck, Recovered.apply, h.entries_eq]
  · rw [replay_concat]
    simp only [afterAck, Recovered.apply, h.nextId_eq]

/-- A put keeps the ids in order. -/
theorem idsOk_afterPut {q : DurableQueue T} (hq : IdsOk q.entries q.nextId) (item : T) :
    IdsOk (q.afterPut itemText item).entries (q.afterPut itemText item).nextId := by
  have hle := hq.le
  have hpos := hq.pos
  have hmax : 1 ≤ U64_MAX := by decide
  refine ⟨by simp only [afterPut, saturatingSucc]; omega,
    by simp only [afterPut, saturatingSucc]; omega, ?_, ?_⟩
  · intro id hid
    rcases Std.ExtTreeMap.mem_insert.mp hid with heq | hid
    · rw [← Std.LawfulEqCmp.eq_of_compare heq]; exact hle
    · exact hq.entry_le id hid
  · intro id hid
    rcases Std.ExtTreeMap.mem_insert.mp hid with heq | hid
    · rw [← Std.LawfulEqCmp.eq_of_compare heq]; exact Nat.le_refl _
    · have := hq.succ_le id hid
      simp only [afterPut, saturatingSucc] at this ⊢
      omega

/-- An acknowledgement keeps the ids in order. -/
theorem idsOk_afterAck {q : DurableQueue T} (hq : IdsOk q.entries q.nextId) (id : Nat) :
    IdsOk (q.afterAck itemText id).entries (q.afterAck itemText id).nextId :=
  ⟨hq.pos, hq.le, fun i hi => hq.entry_le i (Std.ExtTreeMap.mem_of_mem_erase hi),
    fun i hi => hq.succ_le i (Std.ExtTreeMap.mem_of_mem_erase hi)⟩

end DurableQueue

end TeamClu.Mqtt
