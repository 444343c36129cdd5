import TeamClu.Native.DurableMqttStore

/-!
# Readers of the store's records

A canonical reader for each record the store writes, made of the readers of its fields.  It accepts
exactly the texts the writer produces, so it is a `Serde` (`Serde.ofReader`): together they are one
instance of the parameter `StoreSerde` (`storeSerde`), on which the model can be run.
-/

namespace TeamClu.Mqtt

open JsonText

/-- A reader that undoes the writer, whatever follows, is a `Serde` once it insists on getting the
    text that the writer produces. -/
def Serde.ofReader {R : Type} {toText : R → Str} (read : Str → Option (R × Str))
    (hread : ∀ r rest, read (toText r ++ rest) = some (r, rest))
    (hobject : ∀ r, IsObjectLine (toText r)) : Serde toText where
  fromText s := (read s).bind fun (r, _) => if toText r = s then some r else none
  objectLine := hobject
  fromText_toText r := by
    have h := hread r []
    rw [List.append_nil] at h
    simp [h]
  fromText_torn r s hpre hne := by
    obtain ⟨t, ht⟩ := hpre
    cases hs : read s with
    | none => rfl
    | some p =>
      obtain ⟨r', rest⟩ := p
      simp only [Option.bind_some]
      split_ifs with heq
      · -- the text read is that of `r'`, so the text of `r` goes on with nothing
        have h1 := hread r []
        have h2 := hread r' t
        rw [heq, ht, ← List.append_nil (toText r), h1] at h2
        obtain ⟨-, rfl⟩ := Prod.mk.inj (Option.some.inj h2)
        exact absurd (by simpa using ht) hne
      · rfl

/-! ## Items -/

/-- Read an inbox item. -/
def readInbound (s : Str) : Option (DurableInbound × Str) := do
  let s ← readLit (lit "\x7b\"topic\":") s
  let (topic, s) ← readStr s
  let s ← readLit (lit ",\"payload\":") s
  let (payload, s) ← readBytes s
  let s ← readLit (lit ",\"retained\":") s
  let (retained, s) ← readBool s
  let s ← readLit (lit ",\"message_id\":") s
  let (messageId, s) ← readOptStr s
  let s ← readLit (lit "\x7d") s
  return ({ topic, payload, retained, messageId }, s)

theorem readInbound_text (item : DurableInbound) (rest : Str) :
    readInbound (item.text ++ rest) = some (item, rest) := by
  simp only [readInbound, DurableInbound.text, List.append_assoc, readLit_append, readStr_strText,
    readBytes_bytesText, readBool_boolText, readOptStr_optStrText, Option.bind_eq_bind,
    Option.bind_some]
  rfl

/-- Read a delivery. -/
def readDelivery (s : Str) : Option (StoredDelivery × Str) :=
  match readLit StoredDelivery.atMostOnce.text s with
  | some rest => some (.atMostOnce, rest)
  | none =>
    match readLit StoredDelivery.atLeastOnce.text s with
    | some rest => some (.atLeastOnce, rest)
    | none => (readLit StoredDelivery.exactlyOnce.text s).map (.exactlyOnce, ·)

theorem readDelivery_text (d : StoredDelivery) (rest : Str) :
    readDelivery (d.text ++ rest) = some (d, rest) := by
  cases d <;> simp [readDelivery, StoredDelivery.text, readLit, lit]

/-- Read an outbox item. -/
def readPublish (s : Str) : Option (DurablePublish × Str) := do
  let s ← readLit (lit "\x7b\"topic\":") s
  let (topic, s) ← readStr s
  let s ← readLit (lit ",\"payload\":") s
  let (payload, s) ← readBytes s
  let s ← readLit (lit ",\"retain\":") s
  let (retain, s) ← readBool s
  let s ← readLit (lit ",\"delivery\":") s
  let (delivery, s) ← readDelivery s
  let s ← readLit (lit ",\"event_id\":") s
  let (eventId, s) ← readOptStr s
  let s ← readLit (lit "\x7d") s
  return ({ topic, payload, retain, delivery, eventId }, s)

theorem readPublish_text (item : DurablePublish) (rest : Str) :
    readPublish (item.text ++ rest) = some (item, rest) := by
  simp only [readPublish, DurablePublish.text, List.append_assoc, readLit_append, readStr_strText,
    readBytes_bytesText, readBool_boolText, readDelivery_text, readOptStr_optStrText,
    Option.bind_eq_bind, Option.bind_some]
  rfl

/-- Read a dead letter. -/
def readDeadLetter (s : Str) : Option (DurableDeadLetter × Str) := do
  let s ← readLit (lit "\x7b\"inbound\":") s
  let (inbound, s) ← readInbound s
  let s ← readLit (lit ",\"reason\":") s
  let (reason, s) ← readStr s
  let s ← readLit (lit "\x7d") s
  return ({ inbound, reason }, s)

theorem readDeadLetter_text (item : DurableDeadLetter) (rest : Str) :
    readDeadLetter (item.text ++ rest) = some (item, rest) := by
  simp only [readDeadLetter, DurableDeadLetter.text, List.append_assoc, readLit_append,
    readInbound_text, readStr_strText, Option.bind_eq_bind, Option.bind_some]
  rfl

/-! ## Log records -/

section

variable {T : Type} {itemText : T → Str} {readItem : Str → Option (T × Str)}

/-- Read a record of a queue's log. -/
def readLogRecord (readItem : Str → Option (T × Str)) (s : Str) : Option (LogRecord T × Str) :=
  match readLit (lit "\x7b\"Put\":\x7b\"id\":") s with
  | some s => do
    let (id, s) ← readNat s
    let s ← readLit (lit ",\"item\":") s
    let (item, s) ← readItem s
    let s ← readLit (lit "\x7d\x7d") s
    return (.put id item, s)
  | none =>
    match readLit (lit "\x7b\"Ack\":\x7b\"id\":") s with
    | some s => do
      let (id, s) ← readNat s
      let s ← readLit (lit "\x7d\x7d") s
      return (.ack id, s)
    | none => do
      let s ← readLit (lit "\x7b\"Watermark\":\x7b\"next_id\":") s
      let (nextId, s) ← readNat s
      let s ← readLit (lit "\x7d\x7d") s
      return (.watermark nextId, s)

theorem readLogRecord_text (hitem : ∀ x rest, readItem (itemText x ++ rest) = some (x, rest))
    (r : LogRecord T) (rest : Str) :
    readLogRecord readItem (r.text itemText ++ rest) = some (r, rest) := by
  have hbraces : ∀ s, EndsNumber (lit "\x7d\x7d" ++ s) := by simp [EndsNumber, lit]
  have hcomma : ∀ s, EndsNumber (lit ",\"item\":" ++ s) := by simp [EndsNumber, lit]
  cases r with
  | put id item =>
    simp only [readLogRecord, LogRecord.text, List.append_assoc, readLit_append,
      readNat_natText _ (hcomma _), hitem, Option.bind_eq_bind, Option.bind_some]
    rfl
  | ack id =>
    have hput : readLit (lit "\x7b\"Put\":\x7b\"id\":")
        (lit "\x7b\"Ack\":\x7b\"id\":" ++ (natText id ++ (lit "\x7d\x7d" ++ rest))) = none := by simp [readLit, lit]
    simp only [readLogRecord, LogRecord.text, List.append_assoc, hput, readLit_append,
      readNat_natText _ (hbraces _), Option.bind_eq_bind, Option.bind_some]
    rfl
  | watermark nextId =>
    have hput : readLit (lit "\x7b\"Put\":\x7b\"id\":")
        (lit "\x7b\"Watermark\":\x7b\"next_id\":" ++ (natText nextId ++ (lit "\x7d\x7d" ++ rest))) =
          none := by simp [readLit, lit]
    have hack : readLit (lit "\x7b\"Ack\":\x7b\"id\":")
        (lit "\x7b\"Watermark\":\x7b\"next_id\":" ++ (natText nextId ++ (lit "\x7d\x7d" ++ rest))) =
          none := by simp [readLit, lit]
    simp only [readLogRecord, LogRecord.text, List.append_assoc, hput, hack, readLit_append,
      readNat_natText _ (hbraces _), Option.bind_eq_bind, Option.bind_some]
    rfl

/-- A record is an object on one line when its items have no line breaks. -/
theorem isObjectLine_logRecord (hitem : ∀ x, '\n' ∉ itemText x) (r : LogRecord T) :
    IsObjectLine (r.text itemText) := by
  cases r with
  | put id item =>
    refine ⟨?_, lit "\"Put\":\x7b\"id\":" ++ (natText id ++ (lit ",\"item\":" ++
      (itemText item ++ ['}']))), by simp [LogRecord.text, lit]⟩
    simp [LogRecord.text, newline_not_mem_natText, hitem, lit]
  | ack id =>
    refine ⟨?_, lit "\"Ack\":\x7b\"id\":" ++ (natText id ++ ['}']), by simp [LogRecord.text, lit]⟩
    simp [LogRecord.text, newline_not_mem_natText, lit]
  | watermark nextId =>
    refine ⟨?_, lit "\"Watermark\":\x7b\"next_id\":" ++ (natText nextId ++ ['}']),
      by simp [LogRecord.text, lit]⟩
    simp [LogRecord.text, newline_not_mem_natText, lit]

/-- The canonical reader of a queue's log, from one of its items. -/
def logSerde (readItem : Str → Option (T × Str))
    (hread : ∀ x rest, readItem (itemText x ++ rest) = some (x, rest))
    (hitem : ∀ x, '\n' ∉ itemText x) : Serde (LogRecord.text itemText) :=
  Serde.ofReader (readLogRecord readItem) (readLogRecord_text hread) (isObjectLine_logRecord hitem)

end

/-- Read a dedup record. -/
def readDedupRecord (s : Str) : Option (DedupRecord × Str) :=
  match readLit (lit "\x7b\"Insert\":\x7b\"key\":") s with
  | some s => do
    let (key, s) ← readStr s
    let s ← readLit (lit "\x7d\x7d") s
    return (.insert key, s)
  | none => do
    let s ← readLit (lit "\x7b\"Remove\":\x7b\"key\":") s
    let (key, s) ← readStr s
    let s ← readLit (lit "\x7d\x7d") s
    return (.remove key, s)

theorem readDedupRecord_text (r : DedupRecord) (rest : Str) :
    readDedupRecord (r.text ++ rest) = some (r, rest) := by
  cases r with
  | insert key =>
    simp only [readDedupRecord, DedupRecord.text, List.append_assoc, readLit_append,
      readStr_strText, Option.bind_eq_bind, Option.bind_some]
    rfl
  | remove key =>
    have hinsert : readLit (lit "\x7b\"Insert\":\x7b\"key\":")
        (lit "\x7b\"Remove\":\x7b\"key\":" ++ (strText key ++ (lit "\x7d\x7d" ++ rest))) = none := by simp [readLit, lit]
    simp only [readDedupRecord, DedupRecord.text, List.append_assoc, hinsert, readLit_append,
      readStr_strText, Option.bind_eq_bind, Option.bind_some]
    rfl

theorem isObjectLine_dedupRecord (r : DedupRecord) : IsObjectLine r.text := by
  cases r with
  | insert key =>
    refine ⟨?_, lit "\"Insert\":\x7b\"key\":" ++ (strText key ++ ['}']),
      by simp [DedupRecord.text, lit]⟩
    simp [DedupRecord.text, newline_not_mem_strText, lit]
  | remove key =>
    refine ⟨?_, lit "\"Remove\":\x7b\"key\":" ++ (strText key ++ ['}']),
      by simp [DedupRecord.text, lit]⟩
    simp [DedupRecord.text, newline_not_mem_strText, lit]

/-! ## The store's records -/

theorem newline_not_mem_inbound (item : DurableInbound) : '\n' ∉ item.text := by
  simp [DurableInbound.text, newline_not_mem_strText, newline_not_mem_bytesText,
    newline_not_mem_boolText, newline_not_mem_optStrText, lit]

theorem newline_not_mem_publish (item : DurablePublish) : '\n' ∉ item.text := by
  have hdelivery : ∀ d : StoredDelivery, '\n' ∉ d.text := by
    intro d
    cases d <;> simp [StoredDelivery.text, lit]
  simp [DurablePublish.text, newline_not_mem_strText, newline_not_mem_bytesText,
    newline_not_mem_boolText, newline_not_mem_optStrText, hdelivery, lit]

theorem newline_not_mem_deadLetter (item : DurableDeadLetter) : '\n' ∉ item.text := by
  simp [DurableDeadLetter.text, newline_not_mem_inbound, newline_not_mem_strText, lit]

/-- The canonical readers of the four logs. -/
def storeSerde : StoreSerde where
  inbox := logSerde readInbound readInbound_text newline_not_mem_inbound
  outbox := logSerde readPublish readPublish_text newline_not_mem_publish
  deadLetter := logSerde readDeadLetter readDeadLetter_text newline_not_mem_deadLetter
  dedup := Serde.ofReader readDedupRecord readDedupRecord_text isObjectLine_dedupRecord
  legacyKey s := (readStr s).bind fun (key, rest) => if rest = [] then some key else none

end TeamClu.Mqtt
