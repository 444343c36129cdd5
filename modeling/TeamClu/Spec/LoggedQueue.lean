import TeamClu.Spec.DurableQueueCorrect

/-!
# Queues that agree with their logs

`Logged` says that a queue's log consists of whole lines that replay to the queue, each shorter than
a limit.  `put` and `ack` keep that, and opening the log gives the queue back, or fails because a
line is exactly as long as the reader does not take (`open_of_logged`).  `LoggedKeys` is the same
for the dedup index.

The writer takes a line of `MAX_DURABLE_LOG_LINE_BYTES`, the reader only shorter ones, so the limit
is `MAX_DURABLE_LOG_LINE_BYTES` for logs that read back and one more for logs as they are written.
-/

namespace TeamClu.Mqtt

open JsonText (lit)

/-- The line limit of a log: that of the reader or that of the writer. -/
def IsLimit (limit : Nat) : Prop :=
  limit = MAX_DURABLE_LOG_LINE_BYTES ∨ limit = MAX_DURABLE_LOG_LINE_BYTES + 1

theorem IsLimit.le {limit : Nat} (h : IsLimit limit) : MAX_DURABLE_LOG_LINE_BYTES ≤ limit := by
  rcases h with rfl | rfl <;> omega

/-- The record is shorter than the limit. -/
def Below {R : Type} (toText : R → Str) (limit : Nat) (r : R) : Prop :=
  (encode toText r).length < limit

theorem Fits.below {R : Type} {toText : R → Str} {r : R} (h : Fits toText r) {limit : Nat}
    (hlimit : IsLimit limit) : Below toText limit r :=
  Nat.lt_of_lt_of_le h hlimit.le

/-- Records below a limit, with one more. -/
theorem below_concat {R : Type} {toText : R → Str} {limit : Nat} {rs : List R} {r : R}
    (hrs : ∀ q ∈ rs, Below toText limit q) (hr : Below toText limit r) :
    ∀ q ∈ rs ++ [r], Below toText limit q := by
  intro q hq
  rcases List.mem_append.mp hq with hq | hq
  · exact hrs q hq
  · rw [List.mem_singleton.mp hq]; exact hr

namespace DurableQueue

variable {T : Type} {itemText : T → Str} {limit : Nat}

/-- The log of the queue replays to it, and its lines are below the limit. -/
structure Logged (itemText : T → Str) (limit : Nat) (q : DurableQueue T) : Prop where
  log : ∃ rs, q.file = logBytes (LogRecord.text itemText) rs ∧ q.Replays rs ∧
    ∀ r ∈ rs, Below (LogRecord.text itemText) limit r
  ids : IdsOk q.entries q.nextId

/-- The record of an entry is in the log. -/
theorem Logged.below_entry {q : DurableQueue T} (h : Logged itemText limit q) {id : Nat} {item : T}
    (hentry : q.entries[id]? = some item) :
    Below (LogRecord.text itemText) limit (.put id item) := by
  obtain ⟨rs, -, hrep, hbelow⟩ := h.log
  rw [hrep.entries_eq] at hentry
  exact hbelow _ (put_mem_of_replay hentry)

/-- An empty log. -/
theorem logged_empty (ops : Nat) :
    Logged itemText limit { file := [], entries := ∅, nextId := 1, opsSinceCompact := ops } where
  log := ⟨[], rfl, ⟨rfl, rfl⟩, nofun⟩
  ids := ⟨Nat.le_refl _, by change 1 ≤ U64_MAX; decide, nofun, nofun⟩

/-- How many appends there were does not matter. -/
theorem Logged.withOps {q : DurableQueue T} (h : Logged itemText limit q) (ops : Nat) :
    Logged itemText limit { q with opsSinceCompact := ops } :=
  ⟨h.log.imp fun _ hrs => ⟨hrs.1, ⟨hrs.2.1.entries_eq, hrs.2.1.nextId_eq⟩, hrs.2.2⟩, h.ids⟩

/-- A put below the limit. -/
theorem Logged.afterPut {q : DurableQueue T} (h : Logged itemText limit q) {item : T}
    (hr : Below (LogRecord.text itemText) limit (.put q.nextId item)) :
    Logged itemText limit (q.afterPut itemText item) := by
  obtain ⟨rs, hfile, hrep, hbelow⟩ := h.log
  refine ⟨⟨rs ++ [.put q.nextId item], ?_, replays_afterPut hrep h.ids item,
    below_concat hbelow hr⟩, idsOk_afterPut h.ids item⟩
  rw [logBytes_append, logBytes_singleton, ← hfile]
  rfl

/-- A compaction. -/
theorem Logged.compact (hlimit : IsLimit limit) {q : DurableQueue T}
    (h : Logged itemText limit q) : Logged itemText limit (q.compact itemText) := by
  obtain ⟨rs, hfile, hrep, hbelow⟩ := h.log
  have hsnap := replays_snapshot h.ids
  refine ⟨⟨q.snapshot, compact_file q, ⟨hsnap.entries_eq, hsnap.nextId_eq⟩, ?_⟩, h.ids⟩
  intro r hr
  rcases List.mem_cons.mp hr with rfl | hr
  · exact (fits_watermark h.ids.le).below hlimit
  · obtain ⟨⟨id, item⟩, hentry, rfl⟩ := List.mem_map.mp hr
    exact h.below_entry (Std.ExtTreeMap.mem_toList_iff_getElem?_eq_some.mp hentry)

/-- Erasing an id that is not there. -/
theorem erase_of_not_mem {entries : Std.ExtTreeMap Nat T} {id : Nat} (h : id ∉ entries) :
    entries.erase id = entries := by
  refine Std.ExtTreeMap.ext_getElem? fun k => ?_
  rw [Std.ExtTreeMap.getElem?_erase]
  split_ifs with heq
  · rw [← Std.LawfulEqCmp.eq_of_compare heq, Std.ExtTreeMap.getElem?_eq_none h]
  · rfl

/-- An acknowledgement succeeds, erases the id and keeps the log in step. -/
theorem Logged.ack (hlimit : IsLimit limit) {q : DurableQueue T} (h : Logged itemText limit q)
    (id : Nat) :
    ∃ q', q.ack itemText id = .ok q' ∧ Logged itemText limit q' ∧
      q'.entries = q.entries.erase id ∧ q'.nextId = q.nextId := by
  refine ⟨_, ack_eq h.ids id, ?_⟩
  split_ifs with hid
  · obtain ⟨rs, hfile, hrep, hbelow⟩ := h.log
    have hacked : Logged itemText limit (q.afterAck itemText id) := by
      refine ⟨⟨rs ++ [.ack id], ?_, replays_afterAck hrep id,
        below_concat hbelow ((fits_ack (h.ids.entry_le id hid)).below hlimit)⟩,
        idsOk_afterAck h.ids id⟩
      rw [logBytes_append, logBytes_singleton, ← hfile]
      rfl
    refine ⟨?_, (compactIfNeeded_entries _).1, (compactIfNeeded_entries _).2⟩
    unfold compactIfNeeded
    split_ifs
    · exact hacked
    · exact hacked.compact hlimit
  · exact ⟨h, (erase_of_not_mem hid).symm, rfl⟩

/-- Opening the log gives the queue back, unless a line is too long for the reader. -/
theorem open_of_logged (serde : Serde (LogRecord.text itemText)) {q : DurableQueue T}
    (h : Logged itemText limit q) (sizes : List Nat) :
    «open» serde q.file sizes = .ok { q with opsSinceCompact := 0 } ∨
      ∃ n, «open» serde q.file sizes = .error (.lineTooLong n) := by
  obtain ⟨rs, hfile, hrep, -⟩ := h.log
  by_cases hfit : ∀ r ∈ rs, Fits (LogRecord.text itemText) r
  · left
    have hopen := open_log serde hfit .none sizes
    rw [List.append_nil, List.append_nil, ← hrep.entries_eq, ← hrep.nextId_eq] at hopen
    rw [hfile, hopen, List.flatMap_nil, List.append_nil, ← hfile]
  · right
    push Not at hfit
    rw [hfile]
    exact open_tooLong serde hfit sizes

/-- A log below the reader's limit opens. -/
theorem open_of_readable (serde : Serde (LogRecord.text itemText)) {q : DurableQueue T}
    (h : Logged itemText MAX_DURABLE_LOG_LINE_BYTES q) (sizes : List Nat) :
    «open» serde q.file sizes = .ok { q with opsSinceCompact := 0 } := by
  obtain ⟨rs, hfile, hrep, hbelow⟩ := h.log
  have hopen := open_log serde hbelow .none sizes
  rw [List.append_nil, List.append_nil, ← hrep.entries_eq, ← hrep.nextId_eq] at hopen
  rw [hfile, hopen, List.flatMap_nil, List.append_nil, ← hfile]

end DurableQueue

/-! ## The dedup index -/

namespace DurableDedup

/-- The keys that records replay to. -/
def replayKeys (rs : List DedupRecord) : Std.ExtTreeSet Str :=
  (rs.foldl RecoveredKeys.apply {}).keys

/-- The log of the index replays to its keys, its lines read back, and so would that of every key
    it holds. -/
structure LoggedKeys (d : DurableDedup) : Prop where
  log : ∃ rs, d.file = logBytes DedupRecord.text rs ∧ d.keys = replayKeys rs ∧
    ∀ r ∈ rs, Fits DedupRecord.text r
  fits_key : ∀ key ∈ d.keys, Fits DedupRecord.text (.insert key)

/-- A removal is as long as an insertion. -/
theorem fits_remove {key : Str} (h : Fits DedupRecord.text (.insert key)) :
    Fits DedupRecord.text (.remove key) := by
  unfold Fits encode DedupRecord.text at h ⊢
  simp only [Str.length_utf8, Str.utf8Len_append] at h ⊢
  rw [show Str.utf8Len (lit "\x7b\"Insert\":\x7b\"key\":") =
    Str.utf8Len (lit "\x7b\"Remove\":\x7b\"key\":") by rw [lit, lit]; decide] at h
  exact h

private theorem replayKeys_concat (rs : List DedupRecord) (r : DedupRecord) :
    replayKeys (rs ++ [r]) = ((rs.foldl RecoveredKeys.apply {}).apply r).keys := by
  simp [replayKeys]

/-- Replaying the insertions of a compacted log inserts the keys. -/
private theorem mem_foldl_insert (keys : List Str) (st : RecoveredKeys) (key : Str) :
    key ∈ ((keys.map DedupRecord.insert).foldl RecoveredKeys.apply st).keys ↔
      key ∈ keys ∨ key ∈ st.keys := by
  induction keys generalizing st with
  | nil => simp
  | cons k keys ih =>
    rw [List.map_cons, List.foldl_cons, ih]
    simp only [RecoveredKeys.apply, Std.ExtTreeSet.mem_insert, Std.compare_eq_iff_eq,
      List.mem_cons]
    tauto

/-- An empty log. -/
theorem loggedKeys_empty (ops : Nat) :
    LoggedKeys { file := [], keys := ∅, opsSinceCompact := ops } :=
  ⟨⟨[], rfl, rfl, nofun⟩, nofun⟩

/-- A compaction. -/
theorem LoggedKeys.compact {d : DurableDedup}
    (hfit : ∀ key ∈ d.keys, Fits DedupRecord.text (.insert key)) : LoggedKeys d.compact := by
  refine ⟨⟨d.keys.toList.map .insert, ?_, ?_, ?_⟩, hfit⟩
  · rw [logBytes_eq_flatMap, List.flatMap_map]
    rfl
  · refine Std.ExtTreeSet.ext_mem fun key => ?_
    unfold replayKeys
    rw [mem_foldl_insert, Std.ExtTreeSet.mem_toList]
    exact ⟨.inl, fun h => h.resolve_right nofun⟩
  · intro r hr
    obtain ⟨key, hkey, rfl⟩ := List.mem_map.mp hr
    exact hfit key (Std.ExtTreeSet.mem_toList.mp hkey)

/-- Appending a record leaves the keys to the caller. -/
private theorem keys_appendRecord {d d' : DurableDedup} {r : DedupRecord}
    (h : d.appendRecord r = .ok d') : d'.keys = d.keys := by
  unfold appendRecord at h
  split_ifs at h
  rw [← Except.ok.inj h]

/-- One more record, and the keys it leaves. -/
private theorem LoggedKeys.append {d : DurableDedup} (h : LoggedKeys d) {r : DedupRecord}
    (keys : Std.ExtTreeSet Str) (hr : Fits DedupRecord.text r)
    (hkeys : ∀ st : RecoveredKeys, st.keys = d.keys → (st.apply r).keys = keys)
    (hfit : ∀ key ∈ keys, Fits DedupRecord.text (.insert key)) :
    ∃ d', d.appendRecord r = .ok d' ∧ LoggedKeys (compactIfNeeded { d' with keys }) ∧
      (compactIfNeeded { d' with keys }).keys = keys := by
  obtain ⟨rs, hfile, hrs, hfits⟩ := h.log
  have hlen : ¬ (encode DedupRecord.text r).length > MAX_DURABLE_LOG_LINE_BYTES := by
    unfold Fits at hr
    omega
  refine ⟨_, if_neg hlen, ?_⟩
  unfold compactIfNeeded
  split_ifs
  · refine ⟨⟨⟨rs ++ [r], ?_, ?_, ?_⟩, hfit⟩, rfl⟩
    · rw [logBytes_append, logBytes_singleton, ← hfile]
    · rw [replayKeys_concat]
      exact (hkeys _ hrs.symm).symm
    · intro q hq
      rcases List.mem_append.mp hq with hq | hq
      · exact hfits q hq
      · rw [List.mem_singleton.mp hq]; exact hr
  · exact ⟨.compact hfit, rfl⟩

/-- Inserting a key whose record fits. -/
theorem LoggedKeys.insert {d : DurableDedup} (h : LoggedKeys d) {key : Str}
    (hkey : Fits DedupRecord.text (.insert key)) :
    ∃ d', d.insert key = .ok d' ∧ LoggedKeys d' ∧ ∀ k, k ∈ d'.keys ↔ k = key ∨ k ∈ d.keys := by
  unfold DurableDedup.insert
  by_cases hmem : key ∈ d.keys
  · rw [if_pos (Std.ExtTreeSet.contains_iff_mem.mpr hmem)]
    exact ⟨d, rfl, h, fun k => ⟨.inr, fun hk => hk.elim (fun heq => heq ▸ hmem) id⟩⟩
  · rw [if_neg (by rwa [Std.ExtTreeSet.contains_iff_mem])]
    obtain ⟨d', hd', hlogged, hkeys⟩ := h.append (d.keys.insert key) hkey
      (fun st hst => by simp only [RecoveredKeys.apply, hst])
      (fun k hk => by
        rcases Std.ExtTreeSet.mem_insert.mp hk with heq | hk
        · rwa [← Std.LawfulEqCmp.eq_of_compare heq]
        · exact h.fits_key k hk)
    have hkeep := keys_appendRecord hd'
    refine ⟨_, by rw [hd']; rfl, ?_, ?_⟩
    · rwa [hkeep]
    · intro k
      rw [hkeep, hkeys, Std.ExtTreeSet.mem_insert, Std.compare_eq_iff_eq]
      exact or_congr_left eq_comm

/-- Removing a key. -/
theorem LoggedKeys.remove {d : DurableDedup} (h : LoggedKeys d) (key : Str) :
    ∃ d', d.remove key = .ok d' ∧ LoggedKeys d' ∧ ∀ k, k ∈ d'.keys ↔ k ≠ key ∧ k ∈ d.keys := by
  unfold DurableDedup.remove
  by_cases hmem : key ∈ d.keys
  · rw [if_pos (Std.ExtTreeSet.contains_iff_mem.mpr hmem)]
    obtain ⟨d', hd', hlogged, hkeys⟩ := h.append (d.keys.erase key)
      (fits_remove (h.fits_key key hmem))
      (fun st hst => by simp only [RecoveredKeys.apply, hst])
      (fun k hk => h.fits_key k (Std.ExtTreeSet.mem_of_mem_erase hk))
    have hkeep := keys_appendRecord hd'
    refine ⟨_, by rw [hd']; rfl, ?_, ?_⟩
    · rwa [hkeep]
    · intro k
      rw [hkeep, hkeys, Std.ExtTreeSet.mem_erase]
      simp only [ne_eq, Std.compare_eq_iff_eq]
      rw [eq_comm]
  · rw [if_neg (by rwa [Std.ExtTreeSet.contains_iff_mem])]
    exact ⟨d, rfl, h, fun k => ⟨fun hk => ⟨fun heq => hmem (heq ▸ hk), hk⟩, fun hk => hk.2⟩⟩

/-- A record's line applies the record. -/
private theorem openLine_record (serde : Serde DedupRecord.text) (legacy : Str → Option Str)
    (st : RecoveredKeys) (lineNo start : Nat) (isFinal : Bool) (r : DedupRecord) :
    openLine serde legacy st { lineNo, start, text := r.text, isFinal } = .ok (st.apply r) := by
  obtain ⟨hnl, body, hbody⟩ := serde.objectLine r
  unfold openLine LogLine.trim
  simp only [trim_object (serde.objectLine r), serde.fromText_toText]
  rw [if_neg (by rw [hbody]; exact List.cons_ne_nil _ _)]

/-- Opening the log gives the index back. -/
theorem open_of_loggedKeys (serde : Serde DedupRecord.text) (legacy : Str → Option Str)
    {d : DurableDedup} (h : LoggedKeys d) (sizes : List Nat) :
    «open» serde legacy d.file sizes = .ok { d with opsSinceCompact := 0 } := by
  obtain ⟨rs, hfile, hrs, hfits⟩ := h.log
  have hlines : ∀ l ∈ rs.map (encode DedupRecord.text), newlineByte ∉ l := by
    intro l hl
    obtain ⟨r, -, rfl⟩ := List.mem_map.mp hl
    exact newline_not_mem_encode serde r
  have hread := forEachLogLine_eq_readLines (openLine serde legacy) sizes hlines List.not_mem_nil
    ({} : RecoveredKeys)
  rw [readLines_records (openLine_record serde legacy) hfits, List.append_nil] at hread
  have hcut : ∀ (rs : List DedupRecord) (st : RecoveredKeys),
      (rs.foldl RecoveredKeys.apply st).truncatedAt = st.truncatedAt := by
    intro rs
    induction rs with
    | nil => exact fun _ => rfl
    | cons r rs ih => intro st; rw [List.foldl_cons, ih]; cases r <;> rfl
  unfold «open»
  rw [hfile]
  unfold logBytes at hread ⊢
  rw [hread]
  simp only [readLines, List.length_nil, gt_iff_lt, Nat.not_lt_zero, if_false, if_true, hcut,
    Option.elim_none, hrs, replayKeys]

/-- Reconciling with keys whose records fit. -/
theorem LoggedKeys.reconcile {d : DurableDedup} (h : LoggedKeys d) {keys : Std.ExtTreeSet Str}
    (hfit : ∀ key ∈ keys, Fits DedupRecord.text (.insert key)) :
    LoggedKeys (d.reconcile keys) ∧ (d.reconcile keys).keys = keys := by
  unfold DurableDedup.reconcile
  split_ifs with heq
  · exact ⟨h, heq⟩
  · exact ⟨.compact hfit, rfl⟩

end DurableDedup

end TeamClu.Mqtt
