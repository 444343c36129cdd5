import TeamClu.ForStd.JsonText
import Std.Data.ExtTreeMap
import Std.Data.ExtTreeSet
import Mathlib.Tactic.SplitIfs

/-!
# Durable queues on an append-only log

`DurableQueue` and `DurableDedup` of `apps/daemon/src/mqtt/durable_queue.rs`, with the log file as
the list of its bytes.  A missing file is an empty one.  I/O itself succeeds: what a crash leaves
of an append is a matter of the runs in `Spec.QueueCrashSafety`.

`serde_json` is a parameter, `Serde`: the text a record is written as is fixed here, and reading is
any function that undoes the writing and rejects what a torn write leaves of a text.
-/

namespace TeamClu.Mqtt

open JsonText (lit)

/-- The bytes of a file. -/
abbrev Bytes := List UInt8

/-- Appends between two compactions, at least. -/
def COMPACT_AFTER_OPS : Nat := 128

/-- The longest line a log may have. -/
def MAX_DURABLE_LOG_LINE_BYTES : Nat := 8 * 1024 * 1024

/-- `u64::MAX`. -/
def U64_MAX : Nat := 2 ^ 64 - 1

/-- `id.saturating_add(1)` on `u64`. -/
def saturatingSucc (id : Nat) : Nat := min (id + 1) U64_MAX

/-- The newline byte. -/
def newlineByte : UInt8 := 10

/-- Why a queue operation fails. -/
inductive QueueError where
  /-- `durable log line {} exceeds {} bytes`, on reading. -/
  | lineTooLong (lineNo : Nat)
  /-- `invalid UTF-8 in durable log line {}`. -/
  | invalidUtf8 (lineNo : Nat)
  /-- `malformed durable queue record at line {}`. -/
  | malformed (lineNo : Nat)
  /-- `durable MQTT queue record exceeds {} bytes`, on writing. -/
  | recordTooLong
  deriving DecidableEq

/-! ## Reading a log line by line -/

/-- One line of a log, as the callback sees it. -/
structure LogLine where
  lineNo : Nat
  start : Nat
  text : Str
  isFinal : Bool

/-- `LogLine::trim`. -/
def LogLine.trim (line : LogLine) : Str := Str.trim line.text

/-- The variables of the read loop. -/
structure ReadPos where
  /-- The line read so far. -/
  line : Bytes := []
  lineStart : Nat := 0
  lineNo : Nat := 1
  offset : Nat := 0

/-- What `fill_buf` hands out of a file, one buffer after another: `n + 1` bytes for every `n` of
    `sizes`, then the rest. -/
def buffers : List Nat → Bytes → List Bytes
  | _, [] => []
  | [], b :: bytes => [b :: bytes]
  | n :: sizes, b :: bytes => ((b :: bytes).take (n + 1)) :: buffers sizes ((b :: bytes).drop (n + 1))

/-- The buffers that remain once `take` bytes of the first are consumed. -/
def consume (buffer : Bytes) (take : Nat) (rest : List Bytes) : List Bytes :=
  match buffer.drop take with
  | [] => rest
  | left => left :: rest

/-- The bytes consumed of a buffer: up to its newline, or all of it. -/
def taken (newline : Option Nat) (buffer : Bytes) : Nat :=
  newline.elim buffer.length (· + 1)

/-- Every turn of the read loop leaves less to read. -/
theorem measure_consume_lt (buffer : Bytes) (newline : Option Nat) (rest : List Bytes) :
    ((consume buffer (taken newline buffer) rest).map (·.length + 1)).sum <
      ((buffer :: rest).map (·.length + 1)).sum := by
  have htake : buffer.length = 0 ∨ 0 < taken newline buffer := by
    cases newline with
    | none => simp only [taken, Option.elim_none]; omega
    | some position => exact .inr (Nat.succ_pos position)
  unfold consume
  cases hleft : buffer.drop (taken newline buffer) with
  | nil => simp
  | cons b left =>
    have hlen := congrArg List.length hleft
    simp only [List.length_drop, List.length_cons] at hlen
    simp only [List.map_cons, List.sum_cons, List.length_cons]
    omega

/-- The loop of `for_each_log_line`. -/
def forEachLogLine {σ : Type} (callback : σ → LogLine → Except QueueError σ)
    (bufs : List Bytes) (pos : ReadPos) (state : σ) : Except QueueError σ :=
  match bufs with
  | [] =>
    if pos.line = [] then .ok state
    else
      match Str.fromUtf8 pos.line with
      | none => .error (.invalidUtf8 pos.lineNo)
      | some text =>
        callback state { lineNo := pos.lineNo, start := pos.lineStart, text, isFinal := true }
  | buffer :: rest =>
    let newline := buffer.idxOf? newlineByte
    let take := taken newline buffer
    if pos.line.length + take > MAX_DURABLE_LOG_LINE_BYTES then .error (.lineTooLong pos.lineNo)
    else
      let line := pos.line ++ buffer.take (newline.getD take)
      let offset := pos.offset + take
      let left := consume buffer take rest
      if newline.isSome then
        match Str.fromUtf8 line with
        | none => .error (.invalidUtf8 pos.lineNo)
        | some text =>
          match callback state
              { lineNo := pos.lineNo, start := pos.lineStart, text, isFinal := left.isEmpty } with
          | .error e => .error e
          | .ok state =>
            forEachLogLine callback left
              { line := [], lineStart := offset, lineNo := pos.lineNo + 1, offset } state
      else forEachLogLine callback left { pos with line, offset } state
termination_by (bufs.map (·.length + 1)).sum
decreasing_by all_goals exact measure_consume_lt _ _ _

/-! ## JSON records -/

/-- A compact JSON object on one line. -/
def IsObjectLine (s : Str) : Prop := '\n' ∉ s ∧ ∃ body, s = '{' :: body ++ ['}']

/-- `serde_json` for one record type whose values are written as `toText`. -/
structure Serde {R : Type} (toText : R → Str) where
  /-- `serde_json::from_str`. -/
  fromText : Str → Option R
  objectLine : ∀ r, IsObjectLine (toText r)
  /-- Reading undoes writing. -/
  fromText_toText : ∀ r, fromText (toText r) = some r
  /-- What is missing its end is no record. -/
  fromText_torn : ∀ r s, s <+: toText r → s ≠ toText r → fromText s = none

/-- The bytes of a record. -/
def encode {R : Type} (toText : R → Str) (r : R) : Bytes := Str.utf8 (toText r)

/-- The bytes of a record and its newline. -/
def encodeLine {R : Type} (toText : R → Str) (r : R) : Bytes := encode toText r ++ [newlineByte]

/-! ## The queue -/

/-- A record of a queue's log. -/
inductive LogRecord (T : Type) where
  | put (id : Nat) (item : T)
  | ack (id : Nat)
  | watermark (nextId : Nat)
  deriving DecidableEq

/-- The JSON text of a record whose items are written by `itemText`. -/
def LogRecord.text {T : Type} (itemText : T → Str) : LogRecord T → Str
  | put id item =>
    lit "\x7b\"Put\":\x7b\"id\":" ++ (JsonText.natText id ++ (lit ",\"item\":" ++
      (itemText item ++ lit "\x7d\x7d")))
  | ack id => lit "\x7b\"Ack\":\x7b\"id\":" ++ (JsonText.natText id ++ lit "\x7d\x7d")
  | watermark nextId =>
    lit "\x7b\"Watermark\":\x7b\"next_id\":" ++ (JsonText.natText nextId ++ lit "\x7d\x7d")

/-- A queue and the log it is kept in. -/
structure DurableQueue (T : Type) where
  file : Bytes
  entries : Std.ExtTreeMap Nat T
  nextId : Nat
  opsSinceCompact : Nat

/-- What `open` has recovered so far. -/
structure Recovered (T : Type) where
  entries : Std.ExtTreeMap Nat T := ∅
  nextId : Nat := 1
  /-- Where `truncate_torn_tail` has cut the file. -/
  truncatedAt : Option Nat := none

/-- The effect of one record on the state being recovered. -/
def Recovered.apply {T : Type} (st : Recovered T) : LogRecord T → Recovered T
  | .put id item =>
    { st with nextId := max st.nextId (saturatingSucc id), entries := st.entries.insert id item }
  | .ack id => { st with entries := st.entries.erase id }
  | .watermark nextId => { st with nextId := max st.nextId nextId }

namespace DurableQueue

variable {T : Type} {itemText : T → Str}

/-- The callback of `open`: apply the record, or cut the file where a last line is malformed. -/
def openLine (serde : Serde (LogRecord.text itemText)) (st : Recovered T) (line : LogLine) :
    Except QueueError (Recovered T) :=
  if line.trim = [] then .ok st
  else
    match serde.fromText line.trim with
    | some r => .ok (st.apply r)
    | none =>
      if line.isFinal then .ok { st with truncatedAt := some line.start }
      else .error (.malformed line.lineNo)

/-- `DurableQueue::open` of a log read in buffers of the given sizes. -/
def «open» (serde : Serde (LogRecord.text itemText)) (file : Bytes) (sizes : List Nat) :
    Except QueueError (DurableQueue T) :=
  match forEachLogLine (openLine serde) (buffers sizes file) {} {} with
  | .error e => .error e
  | .ok st =>
    .ok { file := st.truncatedAt.elim file file.take, entries := st.entries, nextId := st.nextId
          opsSinceCompact := 0 }

/-- `append_record`. -/
def appendRecord (itemText : T → Str) (q : DurableQueue T) (r : LogRecord T) :
    Except QueueError (DurableQueue T) :=
  if (encode (LogRecord.text itemText) r).length > MAX_DURABLE_LOG_LINE_BYTES then
    .error .recordTooLong
  else
    .ok { q with file := q.file ++ encodeLine (LogRecord.text itemText) r
                 opsSinceCompact := q.opsSinceCompact + 1 }

/-- `put`: the id the item is kept under. -/
def put (itemText : T → Str) (q : DurableQueue T) (item : T) :
    Except QueueError (DurableQueue T × Nat) := do
  let id := q.nextId
  let q ← q.appendRecord itemText (.put id item)
  return ({ q with entries := q.entries.insert id item, nextId := saturatingSucc id }, id)

/-- The records `compact` writes. -/
def snapshot (q : DurableQueue T) : List (LogRecord T) :=
  .watermark q.nextId :: q.entries.toList.map fun (id, item) => .put id item

/-- `compact`: write the records to a new file and rename it over the log. -/
def compact (itemText : T → Str) (q : DurableQueue T) : DurableQueue T :=
  { q with file := q.snapshot.flatMap (encodeLine (LogRecord.text itemText)), opsSinceCompact := 0 }

/-- `compact_if_needed`. -/
def compactIfNeeded (itemText : T → Str) (q : DurableQueue T) : DurableQueue T :=
  if q.opsSinceCompact < COMPACT_AFTER_OPS ∨ q.opsSinceCompact < max q.entries.size 1 then q
  else q.compact itemText

/-- `ack`: nothing to do for an id that is not pending. -/
def ack (itemText : T → Str) (q : DurableQueue T) (id : Nat) : Except QueueError (DurableQueue T) :=
  if q.entries.contains id then do
    let q ← q.appendRecord itemText (.ack id)
    return compactIfNeeded itemText { q with entries := q.entries.erase id }
  else .ok q

/-- `values`: the entries in the order of their ids. -/
def values (q : DurableQueue T) : List (Nat × T) := q.entries.toList

/-- Whether it compacts or not, `compact_if_needed` keeps the entries and the next id. -/
theorem compactIfNeeded_entries (q : DurableQueue T) :
    (compactIfNeeded itemText q).entries = q.entries ∧
      (compactIfNeeded itemText q).nextId = q.nextId := by
  unfold compactIfNeeded
  split_ifs <;> exact ⟨rfl, rfl⟩

/-- An acknowledged entry is gone, and no other. -/
theorem entries_of_ack {q q' : DurableQueue T} {id : Nat} (hid : id ∈ q.entries)
    (h : q.ack itemText id = .ok q') : q'.entries = q.entries.erase id := by
  unfold ack appendRecord at h
  rw [if_pos (Std.ExtTreeMap.contains_iff_mem.mpr hid)] at h
  split_ifs at h
  · exact nomatch h
  · rw [← Except.ok.inj h, (compactIfNeeded_entries _).1]

end DurableQueue

/-! ## The dedup index -/

/-- A record of the dedup log. -/
inductive DedupRecord where
  | insert (key : Str)
  | remove (key : Str)
  deriving DecidableEq

/-- The JSON text of a dedup record. -/
def DedupRecord.text : DedupRecord → Str
  | insert key => lit "\x7b\"Insert\":\x7b\"key\":" ++ (JsonText.strText key ++ lit "\x7d\x7d")
  | remove key => lit "\x7b\"Remove\":\x7b\"key\":" ++ (JsonText.strText key ++ lit "\x7d\x7d")

/-- The set of keys and the log it is kept in. -/
structure DurableDedup where
  file : Bytes
  keys : Std.ExtTreeSet Str
  opsSinceCompact : Nat

namespace DurableDedup

/-- The keys recovered so far, and where the file has been cut. -/
structure RecoveredKeys where
  keys : Std.ExtTreeSet Str := ∅
  truncatedAt : Option Nat := none

/-- The effect of one record on the keys being recovered. -/
def RecoveredKeys.apply (st : RecoveredKeys) : DedupRecord → RecoveredKeys
  | .insert key => { st with keys := st.keys.insert key }
  | .remove key => { st with keys := st.keys.erase key }

/-- The callback of `open`.  `legacy` reads the plain JSON string that older builds wrote for a
    key. -/
def openLine (serde : Serde DedupRecord.text) (legacy : Str → Option Str) (st : RecoveredKeys)
    (line : LogLine) : Except QueueError RecoveredKeys :=
  if line.trim = [] then .ok st
  else
    match serde.fromText line.trim with
    | some r => .ok (st.apply r)
    | none =>
      match legacy line.trim with
      | some key => .ok (st.apply (.insert key))
      | none =>
        if line.isFinal then .ok { st with truncatedAt := some line.start }
        else .error (.malformed line.lineNo)

/-- `DurableDedup::open`. -/
def «open» (serde : Serde DedupRecord.text) (legacy : Str → Option Str) (file : Bytes)
    (sizes : List Nat) : Except QueueError DurableDedup :=
  match forEachLogLine (openLine serde legacy) (buffers sizes file) {} {} with
  | .error e => .error e
  | .ok st =>
    .ok { file := st.truncatedAt.elim file file.take, keys := st.keys, opsSinceCompact := 0 }

/-- `append_record`. -/
def appendRecord (d : DurableDedup) (r : DedupRecord) : Except QueueError DurableDedup :=
  if (encode DedupRecord.text r).length > MAX_DURABLE_LOG_LINE_BYTES then .error .recordTooLong
  else
    .ok { d with file := d.file ++ encodeLine DedupRecord.text r
                 opsSinceCompact := d.opsSinceCompact + 1 }

/-- `compact`.  The order of a hash set is arbitrary; here it is the order of the keys. -/
def compact (d : DurableDedup) : DurableDedup :=
  { d with file := d.keys.toList.flatMap fun key => encodeLine DedupRecord.text (.insert key)
           opsSinceCompact := 0 }

/-- `compact_if_needed`. -/
def compactIfNeeded (d : DurableDedup) : DurableDedup :=
  if d.opsSinceCompact < COMPACT_AFTER_OPS ∨ d.opsSinceCompact < max d.keys.size 1 then d
  else d.compact

/-- `insert`. -/
def insert (d : DurableDedup) (key : Str) : Except QueueError DurableDedup :=
  if d.keys.contains key then .ok d
  else do
    let d ← d.appendRecord (.insert key)
    return compactIfNeeded { d with keys := d.keys.insert key }

/-- `remove`. -/
def remove (d : DurableDedup) (key : Str) : Except QueueError DurableDedup :=
  if d.keys.contains key then do
    let d ← d.appendRecord (.remove key)
    return compactIfNeeded { d with keys := d.keys.erase key }
  else .ok d

/-- `reconcile`: take over the keys that are pending. -/
def reconcile (d : DurableDedup) (pendingKeys : Std.ExtTreeSet Str) : DurableDedup :=
  if d.keys = pendingKeys then d else compact { d with keys := pendingKeys }

end DurableDedup

end TeamClu.Mqtt
