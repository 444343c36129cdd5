import TeamClu.Native.MessageCache

/-!
# Overlapping calls of the message cache

The functions of the cache read and write without a lock, so two that overlap can lose each other's writes.
What they cannot do is mix up the rows of a session: whatever the order of their calls to the storage, a
session has only rows of its own, each message once, in the order of their creation.

Key results:
- `mergeRows_ok`, `find_mergeRows`: the rows of a session after incoming ones are merged in.
- `blobs_ok_interleaved`: any calls, overlapping in any way.
-/

namespace TeamClu.MessageCache

open Program

/-! ## The rows of a session -/

/-- Rows as they are stored for a session. -/
structure BlobOk (sessionId : Str) (rows : List MessageRow) : Prop where
  distinct : (rows.map (·.id)).Nodup
  own : ∀ row ∈ rows, row.sessionId = sessionId
  sorted : rows.Pairwise fun a b => createdAtKey a ≤ createdAtKey b

/-- The row of a message. -/
def findRow (rows : List MessageRow) (id : Str) : Option MessageRow := rows.find? (·.id == id)

theorem blobOk_nil (sessionId : Str) : BlobOk sessionId [] :=
  ⟨List.nodup_nil, fun _ h => absurd h List.not_mem_nil, List.Pairwise.nil⟩

/-- Where each message is there once, the row of a message is the one that is there. -/
theorem findRow_eq_some_iff {rows : List MessageRow} (h : (rows.map (·.id)).Nodup) {id : Str}
    {row : MessageRow} : findRow rows id = some row ↔ row ∈ rows ∧ row.id = id := by
  refine ⟨fun hfind => ⟨List.mem_of_find?_eq_some hfind, by simpa using List.find?_some hfind⟩, ?_⟩
  rintro ⟨hmem, rfl⟩
  obtain ⟨other, hother⟩ := Option.isSome_iff_exists.mp
    ((List.find?_isSome (p := fun r => r.id == row.id)).mpr ⟨row, hmem, by simp⟩)
  have hkey : other.id = row.id := by simpa using List.find?_some hother
  rw [findRow, hother, List.inj_on_of_nodup_map h (List.mem_of_find?_eq_some hother) hmem hkey]

/-- A change that keeps the ids. -/
theorem findRow_map {rows : List MessageRow} {f : MessageRow → MessageRow} (hf : ∀ row, (f row).id = row.id)
    (id : Str) : findRow (rows.map f) id = (findRow rows id).map f := by
  rw [findRow, findRow, List.find?_map]
  congr 1
  refine congrArg (List.find? · rows) (funext fun row => ?_)
  simp [hf]

theorem findRow_perm {rows rows' : List MessageRow} (hperm : rows.Perm rows')
    (h : (rows.map (·.id)).Nodup) (id : Str) : findRow rows id = findRow rows' id := by
  refine Option.ext fun row => ?_
  rw [findRow_eq_some_iff h, findRow_eq_some_iff ((hperm.map _).nodup_iff.mp h), hperm.mem_iff]

/-- A change that keeps the id, the session and the time of creation of each row. -/
theorem BlobOk.map {sessionId : Str} {rows : List MessageRow} (h : BlobOk sessionId rows)
    {f : MessageRow → MessageRow} (hid : ∀ row, (f row).id = row.id)
    (hsession : ∀ row, (f row).sessionId = row.sessionId)
    (hcreated : ∀ row, (f row).createdAt = row.createdAt) : BlobOk sessionId (rows.map f) := by
  refine ⟨?_, fun row hrow => ?_, ?_⟩
  · rw [List.map_map, show (fun row : MessageRow => row.id) ∘ f = (·.id) from funext hid]
    exact h.distinct
  · obtain ⟨old, hold, rfl⟩ := List.mem_map.mp hrow
    rw [hsession, h.own old hold]
  · rw [List.pairwise_map]
    refine h.sorted.imp fun {a b} hab => ?_
    rw [createdAtKey, createdAtKey, hcreated, hcreated]
    exact hab

@[simp] theorem mergeMessageRow_id (old : Option MessageRow) (row : MessageRow) :
    (mergeMessageRow old row).id = row.id := by
  cases old <;> rfl

@[simp] theorem mergeMessageRow_sessionId (old : Option MessageRow) (row : MessageRow) :
    (mergeMessageRow old row).sessionId = row.sessionId := by
  cases old <;> rfl

/-! ## Merging rows -/

/-- `byId` of `mergeRows`, after both loops. -/
private def byId (existing incoming : List MessageRow) : OrderedMap Str MessageRow :=
  incoming.foldl (fun byId row => byId.put row.id (mergeMessageRow (byId.get row.id) row))
    (existing.foldl (fun byId row => byId.put row.id row) .empty)

private theorem get_existing {existing : List MessageRow} (h : (existing.map (·.id)).Nodup) (id : Str) :
    (existing.foldl (fun byId row => byId.put row.id row)
      (.empty : OrderedMap Str MessageRow)).get id = findRow existing id := by
  rw [OrderedMap.get_foldl_put (fun row : MessageRow => row.id) (fun _ row => row)]
  induction existing with
  | nil => rfl
  | cons row rest ih =>
    obtain ⟨hnot, hrest⟩ := List.nodup_cons.mp h
    by_cases hid : row.id = id
    · have hnone : rest.filter (fun r => r.id = id) = [] := by
        rw [List.filter_eq_nil_iff]
        intro r hr heq
        exact hnot (List.mem_map.mpr ⟨r, hr, by simpa [hid] using heq⟩)
      rw [List.filter_cons_of_pos (by simpa using hid), hnone, findRow,
        List.find?_cons_of_pos (by simpa using hid)]
      rfl
    · rw [List.filter_cons_of_neg (by simpa using hid), ih hrest, findRow, findRow,
        List.find?_cons_of_neg (by simpa using hid)]

private theorem get_byId {existing : List MessageRow} (h : (existing.map (·.id)).Nodup)
    (incoming : List MessageRow) (id : Str) : (byId existing incoming).get id =
      (incoming.filter (·.id = id)).foldl (fun old row => some (mergeMessageRow old row))
        (findRow existing id) := by
  rw [byId, OrderedMap.get_foldl_put (fun row : MessageRow => row.id) mergeMessageRow, get_existing h]

/-- What holds of the stored rows and of every merged one. -/
private theorem forall_byId (P : Str → MessageRow → Prop) {existing incoming : List MessageRow}
    (hexisting : ∀ row ∈ existing, P row.id row)
    (hincoming : ∀ old, ∀ row ∈ incoming, P row.id (mergeMessageRow old row)) {id : Str} {row : MessageRow}
    (h : (byId existing incoming).get id = some row) : P id row := by
  refine OrderedMap.forall_entries_foldl_put (fun row : MessageRow => row.id) mergeMessageRow P incoming
    hincoming (fun id row h => ?_) id row h
  exact OrderedMap.forall_entries_foldl_put (fun row : MessageRow => row.id) (fun _ row => row) P existing
    (fun _ => hexisting) (by simp) id row h

/-- Each row is under its own id. -/
private theorem id_of_byId {existing incoming : List MessageRow} {id : Str} {row : MessageRow}
    (h : (byId existing incoming).get id = some row) : row.id = id :=
  forall_byId (fun id row => row.id = id) (fun _ _ => rfl) (fun _ _ _ => by simp) h

private theorem ids_byId (existing incoming : List MessageRow) :
    (byId existing incoming).values.map (·.id) = (byId existing incoming).keys := by
  rw [OrderedMap.values, OrderedMap.keys, List.map_map]
  exact List.map_congr_left fun e he => id_of_byId (OrderedMap.mem_entries_iff.mp he)

private theorem mergeRows_perm (existing incoming : List MessageRow) :
    (mergeRows existing incoming).Perm (byId existing incoming).values := List.mergeSort_perm _ _

/-- The row of a message is what the incoming rows make of the one that is stored. -/
theorem findRow_mergeRows {existing : List MessageRow} (h : (existing.map (·.id)).Nodup)
    (incoming : List MessageRow) (id : Str) : findRow (mergeRows existing incoming) id =
      (incoming.filter (·.id = id)).foldl (fun old row => some (mergeMessageRow old row))
        (findRow existing id) := by
  have hnodup : ((byId existing incoming).values.map (·.id)).Nodup := by
    rw [ids_byId]
    exact (byId existing incoming).nodup
  rw [← get_byId h, ← findRow_perm (mergeRows_perm existing incoming).symm hnodup]
  refine Option.ext fun row => ?_
  rw [findRow_eq_some_iff hnodup, OrderedMap.mem_values_iff]
  constructor
  · rintro ⟨⟨id', hrow⟩, rfl⟩
    rw [id_of_byId hrow]
    exact hrow
  · exact fun hrow => ⟨⟨id, hrow⟩, id_of_byId hrow⟩

/-- Rows of a session stay so when others of the session are merged in. -/
theorem mergeRows_ok {sessionId : Str} {existing incoming : List MessageRow} (h : BlobOk sessionId existing)
    (hown : ∀ row ∈ incoming, row.sessionId = sessionId) :
    BlobOk sessionId (mergeRows existing incoming) := by
  refine ⟨?_, fun row hrow => ?_, ?_⟩
  · rw [((mergeRows_perm existing incoming).map _).nodup_iff, ids_byId]
    exact (byId existing incoming).nodup
  · obtain ⟨id, hget⟩ := OrderedMap.mem_values_iff.mp ((mergeRows_perm existing incoming).subset hrow)
    exact forall_byId (fun _ row => row.sessionId = sessionId) h.own
      (fun _ row hrow => by simpa using hown row hrow) hget
  · exact StableSort.pairwise_mergeSort _

/-- The rows of each session of a batch. -/
theorem get_bySession (rows : List MessageRow) (sessionId : Str) : (bySession rows).get sessionId =
    if rows.filter (·.sessionId = sessionId) = [] then none
    else some (rows.filter (·.sessionId = sessionId)) := by
  have hfold (own : List MessageRow) (old : Option (List MessageRow)) :
      own.foldl (fun old row => some (old.getD [] ++ [row])) old =
        if own = [] then old else some (old.getD [] ++ own) := by
    induction own generalizing old with
    | nil => rfl
    | cons row own ih => rw [List.foldl_cons, ih]; split <;> simp_all
  rw [bySession, OrderedMap.get_foldl_put (fun row : MessageRow => row.sessionId)
    (fun old row => old.getD [] ++ [row]), hfold]
  rfl

/-! ## Any order of the calls -/

/-- Every session has rows as they are stored for it. -/
def BlobsOk (s : Storage) : Prop := ∀ sessionId rows, s.blobs.get sessionId = some rows → BlobOk sessionId rows

section Keeps

variable {α : Type} {sessionId : Str}

private theorem keeps_readMeta : Keeps BlobsOk (fun _ => True) readMeta :=
  .perform fun _ _ h => ⟨h, trivial⟩

private theorem keeps_writeMeta (info : ExtensionMessageCacheMeta) :
    Keeps BlobsOk (fun _ => True) (writeMeta info) := .perform fun _ _ h => ⟨h, trivial⟩

private theorem keeps_dateNow : Keeps BlobsOk (fun _ => True) dateNow := .perform fun _ _ h => ⟨h, trivial⟩

/-- What is read for a session is as it is stored for it. -/
private theorem keeps_readSessionRows : Keeps BlobsOk (BlobOk sessionId) (readSessionRows sessionId) := by
  refine .perform fun c s h => ⟨h, ?_⟩
  change BlobOk sessionId (if c.readFails then [] else (s.blobs.get sessionId).getD [])
  split
  · exact blobOk_nil sessionId
  · cases hget : s.blobs.get sessionId with
    | none => exact blobOk_nil sessionId
    | some rows => exact h sessionId rows hget

private theorem keeps_setRows {rows : List MessageRow} (hrows : BlobOk sessionId rows)
    (info : ExtensionMessageCacheMeta) : Keeps BlobsOk (fun _ => True) (setRows sessionId rows info) := by
  refine .perform fun _ s h => ⟨fun id other hget => ?_, trivial⟩
  change (s.blobs.put sessionId rows).get id = some other at hget
  rw [OrderedMap.get_put] at hget
  split at hget
  · next heq =>
    cases hget
    exact heq ▸ hrows
  · exact h id other hget

private theorem keeps_removeRows (sessionIds : List Str) :
    Keeps BlobsOk (fun _ => True) (removeRows sessionIds) := by
  refine .perform fun _ s h => ⟨fun id rows hget => ?_, trivial⟩
  change (s.blobs.filter _).get id = some rows at hget
  rw [OrderedMap.get_filter, Option.filter_eq_some_iff] at hget
  exact h id rows hget.1

private theorem keeps_writeSessionRows {rows : List MessageRow} (hrows : BlobOk sessionId rows)
    (info : ExtensionMessageCacheMeta) :
    Keeps BlobsOk (fun _ => True) (writeSessionRows sessionId rows info) :=
  keeps_dateNow.bind fun _ _ => (keeps_setRows hrows _).bind fun _ _ => .pure trivial

private theorem keeps_prune (protectSessionId : Option Str) :
    Keeps BlobsOk (fun _ => True) (pruneExtensionMessageCache protectSessionId) := by
  refine keeps_readMeta.bind fun info _ => ?_
  dsimp only
  split
  · exact .pure trivial
  · exact (keeps_removeRows _).bind fun _ _ => (keeps_writeMeta _).bind fun _ _ => .pure trivial

private theorem keeps_upsertSessions {groups : List (Str × List MessageRow)}
    (h : ∀ e ∈ groups, ∀ row ∈ e.2, row.sessionId = e.1) (info : ExtensionMessageCacheMeta) :
    Keeps BlobsOk (fun _ => True) (upsertSessions groups info) := by
  induction groups generalizing info with
  | nil => exact .pure trivial
  | cons e groups ih =>
    refine keeps_readSessionRows.bind fun existing hexisting => ?_
    refine (keeps_writeSessionRows (mergeRows_ok hexisting (h e List.mem_cons_self)) info).bind fun _ _ => ?_
    exact ih (fun e he => h e (List.mem_cons_of_mem _ he)) _

private theorem keeps_upsert (rows : List MessageRow) :
    Keeps BlobsOk (fun _ => True) (upsertExtensionMessagesBatch rows) := by
  rw [upsertExtensionMessagesBatch]
  split
  · exact .pure trivial
  · refine keeps_readMeta.bind fun info _ => ?_
    refine (keeps_upsertSessions (fun e he row hrow => ?_) info).bind fun _ _ =>
      (keeps_prune _).bind fun _ _ => .pure trivial
    have hget := OrderedMap.mem_entries_iff.mp he
    rw [get_bySession] at hget
    split at hget
    · cases hget
    · rw [← Option.some.inj hget] at hrow
      simpa using (List.mem_filter.mp hrow).2

/-- The prune that a load starts keeps the rows too. -/
private theorem keeps_load (includeDeleted : Bool) : Keeps BlobsOk (fun loaded => Keeps BlobsOk (fun _ => True) loaded.2)
    (loadExtensionMessagesForSession sessionId includeDeleted) := by
  refine keeps_readSessionRows.bind fun rows _ => keeps_readMeta.bind fun info _ => ?_
  refine Keeps.bind (R := fun _ => True) ?_ fun _ _ => .pure (keeps_prune _)
  rw [touchSession]
  split
  · exact keeps_dateNow.bind fun _ _ => keeps_writeMeta _
  · exact .pure trivial

/-- What the scan finds are the rows of the session that it returns. -/
private theorem keeps_scanSessions (messageId : Str) (sessionIds : List Str) :
    Keeps BlobsOk (fun found => ∀ e ∈ found, BlobOk e.1 e.2) (scanSessions messageId sessionIds) := by
  induction sessionIds with
  | nil => exact .pure fun e he => by cases he
  | cons sessionId rest ih =>
    refine keeps_readSessionRows.bind fun rows hrows => ?_
    split
    · exact .pure fun e he => by cases he; exact hrows
    · exact ih

private theorem keeps_findRows (info : ExtensionMessageCacheMeta) (messageId : Str) :
    Keeps BlobsOk (fun found => ∀ e ∈ found, BlobOk e.1 e.2) (findRows info messageId) := by
  rw [findRows]
  split
  · exact keeps_readSessionRows.bind fun rows hrows => .pure fun e he => by cases he; exact hrows
  · refine (keeps_scanSessions messageId _).bind fun found hfound => .pure fun e he => hfound e ?_
    exact (Option.filter_eq_some_iff.mp he).1

private theorem keeps_setParts (messageId partsJson : Str) :
    Keeps BlobsOk (fun _ => True) (setExtensionMessageParts messageId partsJson) := by
  refine keeps_readMeta.bind fun info _ => (keeps_findRows info messageId).bind fun found hfound => ?_
  cases found with
  | none => exact .pure trivial
  | some e =>
    dsimp only
    split
    · exact .pure trivial
    · refine (keeps_writeSessionRows ((hfound e rfl).map ?_ ?_ ?_) info).bind fun _ _ =>
        (keeps_prune _).bind fun _ _ => .pure trivial
      all_goals intro row; split <;> rfl

private theorem keeps_softDelete (id deletedAt : Str) :
    Keeps BlobsOk (fun _ => True) (softDeleteExtensionMessage id deletedAt) := by
  refine keeps_readMeta.bind fun info _ => ?_
  split
  · exact .pure trivial
  · refine keeps_readSessionRows.bind fun rows hrows =>
      (keeps_writeSessionRows (hrows.map ?_ ?_ ?_) info).bind fun _ _ => .pure trivial
    all_goals intro row; split <;> rfl

/-- Each call keeps the rows of the sessions, whatever runs beside it. -/
theorem CacheCall.keeps (call : CacheCall) : Keeps BlobsOk (fun _ => True) call.program := by
  cases call with
  | upsert rows => exact keeps_upsert rows
  | load sessionId includeDeleted =>
    exact (keeps_load includeDeleted).bind fun _ hpruning => Keeps.bind hpruning fun _ _ => .pure trivial
  | setParts messageId partsJson => exact (keeps_setParts messageId partsJson).bind fun _ _ => .pure trivial
  | softDelete id deletedAt => exact keeps_softDelete id deletedAt
  | prune protectSessionId => exact (keeps_prune protectSessionId).bind fun _ _ => .pure trivial

end Keeps

/-- A call starts, or one that runs makes its next call to the storage. -/
inductive CacheInput
  | start (call : CacheCall)
  | turn (i : Nat) (c : Choice)

/-- The input of the pool. -/
def CacheInput.toPool : CacheInput → calls.PoolInput
  | start c => .start c.program
  | turn i c => .turn i c

private theorem started_toPool (inputs : List CacheInput) :
    ∀ p ∈ calls.started (inputs.map CacheInput.toPool), ∃ call : CacheCall, p = call.program := by
  induction inputs with
  | nil => exact fun p hp => absurd hp List.not_mem_nil
  | cons input inputs ih =>
    cases input with
    | start c =>
      intro p hp
      rcases List.mem_cons.mp (show p ∈ c.program :: calls.started _ from hp) with rfl | hp
      · exact ⟨c, rfl⟩
      · exact ih p hp
    | turn i c => exact fun p hp => ih p hp

/-- Whatever calls run, and in whatever order they reach the storage: a session has only rows of its own, each
    message once, in the order of their creation. -/
theorem blobs_ok_interleaved (inputs : List CacheInput) :
    BlobsOk ((calls.pool emptyStorage).run (inputs.map CacheInput.toPool)).state := by
  refine Calls.invariant_pool calls (fun sessionId rows h => by cases h) fun p hp => ?_
  obtain ⟨call, rfl⟩ := started_toPool inputs p hp
  exact call.keeps

end TeamClu.MessageCache
