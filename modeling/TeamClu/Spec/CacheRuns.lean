import TeamClu.Spec.CacheEviction
import TeamClu.Spec.CacheInterleaved

/-!
# Calls of the message cache that do not overlap

Where no read fails and each call is over before the next starts, with the prune that a load leaves running, the
cache is what it is for: a map from the sessions that it
has to their messages.  `Contents` is that map, `CacheCall.spec` what a call does to it, and an eviction
takes away whole sessions.

Key results:
- `wp_call`: what one call does to the contents, and that it keeps `Sound`.
- `refines`: the runs of the cache are runs of the map.
-/

namespace TeamClu.MessageCache

open Program

/-! ## What the calls to the storage do -/

section Calls

variable {α : Type} {s : Storage}

/-- No read fails. -/
def Reads (c : calls.Choice) : Prop := Choice.readFails c = false

/-- The metadata as it is read. -/
def Storage.current (s : Storage) : ExtensionMessageCacheMeta := s.info.getD emptyMeta

/-- The rows of a session as they are read. -/
def Storage.rows (s : Storage) (sessionId : Str) : List MessageRow := (s.blobs.get sessionId).getD []

/-- A call that returns the same and leaves the same storage at every time. -/
private theorem wp_call_iff {op : StorageCall} {Q : op.Res → Storage → Prop} {r : op.Res} {s' : Storage}
    (h : ∀ c : Choice, Reads c → op.step c s = (r, s')) :
    wp Reads Q (Program.perform (C := calls) op) s ↔ Q r s' := by
  refine ⟨fun hall => ?_, fun hq c hc => ?_⟩
  · have hzero := hall ({ time := 0, readFails := false } : Choice) rfl
    have hstep : calls.step op ({ time := 0, readFails := false } : Choice) s = (r, s') :=
      h { time := 0, readFails := false } rfl
    rwa [hstep] at hzero
  · rwa [show calls.step op c s = _ from h c hc]

@[simp] theorem wp_readMeta {Q : ExtensionMessageCacheMeta → Storage → Prop} :
    wp Reads Q readMeta s ↔ Q s.current s :=
  wp_call_iff fun c hc => by simp [StorageCall.step, show c.readFails = false from hc, Storage.current]

@[simp] theorem wp_writeMeta {Q : Unit → Storage → Prop} {info : ExtensionMessageCacheMeta} :
    wp Reads Q (writeMeta info) s ↔ Q () { s with info := some info } :=
  wp_call_iff fun _ _ => rfl

@[simp] theorem wp_readSessionRows {Q : List MessageRow → Storage → Prop} {sessionId : Str} :
    wp Reads Q (readSessionRows sessionId) s ↔ Q (s.rows sessionId) s :=
  wp_call_iff fun c hc => by simp [StorageCall.step, show c.readFails = false from hc, Storage.rows]

@[simp] theorem wp_dateNow {Q : Nat → Storage → Prop} : wp Reads Q dateNow s ↔ ∀ now, Q now s :=
  ⟨fun h now => h ({ time := now, readFails := false } : Choice) rfl, fun h c _ => h (Choice.time c)⟩

@[simp] theorem wp_setRows {Q : Unit → Storage → Prop} {sessionId : Str} {rows : List MessageRow}
    {info : ExtensionMessageCacheMeta} : wp Reads Q (setRows sessionId rows info) s ↔
      Q () { info := some info, blobs := s.blobs.put sessionId rows } :=
  wp_call_iff fun _ _ => rfl

@[simp] theorem wp_removeRows {Q : Unit → Storage → Prop} {sessionIds : List Str} :
    wp Reads Q (removeRows sessionIds) s ↔
      Q () { s with blobs := s.blobs.filter fun e => e.1 ∉ sessionIds } :=
  wp_call_iff fun _ _ => rfl

/-- The metadata that `writeSessionRows` stores. -/
def withRows (info : ExtensionMessageCacheMeta) (sessionId : Str) (rows : List MessageRow) (now : Nat) :
    ExtensionMessageCacheMeta :=
  { sessions := info.sessions.put sessionId { lastAccessAt := now, bytes := estimateBytes rows }
    idIndex := rows.foldl (fun index row => index.put row.id sessionId) info.idIndex }

/-- The storage with the rows of a session. -/
def Storage.write (s : Storage) (sessionId : Str) (rows : List MessageRow) (now : Nat) : Storage :=
  { info := some (withRows s.current sessionId rows now), blobs := s.blobs.put sessionId rows }

/-- The storage without the sessions. -/
def Storage.evict (s : Storage) (victims : List Str) : Storage :=
  { info := some (applyEvictionToMeta s.current victims)
    blobs := s.blobs.filter fun e => e.1 ∉ victims }

/-- The sessions that a prune evicts. -/
def Storage.victims (s : Storage) (protectSessionId : Option Str) : List Str :=
  pickSessionsToEvict s.current MAX_SESSIONS MAX_BYTES protectSessionId

theorem wp_writeSessionRows {Q : ExtensionMessageCacheMeta → Storage → Prop} {sessionId : Str}
    {rows : List MessageRow} : wp Reads Q (writeSessionRows sessionId rows s.current) s ↔
      ∀ now, Q (withRows s.current sessionId rows now) (s.write sessionId rows now) := by
  rw [writeSessionRows, wp_bind, wp_dateNow]
  refine forall_congr' fun now => ?_
  rw [wp_bind, wp_setRows, wp_pure]
  rfl

theorem wp_prune {Q : List Str → Storage → Prop} {protectSessionId : Option Str}
    (hnone : s.victims protectSessionId = [] → Q [] s)
    (hsome : s.victims protectSessionId ≠ [] →
      Q (s.victims protectSessionId) (s.evict (s.victims protectSessionId))) :
    wp Reads Q (pruneExtensionMessageCache protectSessionId) s := by
  rw [pruneExtensionMessageCache, wp_bind, wp_readMeta]
  change wp Reads Q (if s.victims protectSessionId = [] then _ else _) s
  split
  · next h => exact hnone h
  · next h =>
    rw [wp_bind, wp_removeRows, wp_bind, wp_writeMeta]
    exact hsome h

end Calls

/-! ## What the cache is for -/

/-- The messages of the sessions that are cached. -/
abbrev Contents := Str → Option (Str → Option MessageRow)

/-- The messages that are stored. -/
def Storage.contents (s : Storage) : Contents := fun sessionId => (s.blobs.get sessionId).map findRow

/-- The messages of a session with incoming ones merged in. -/
def putRows (incoming : List MessageRow) (old : Option (Str → Option MessageRow)) (id : Str) :
    Option MessageRow :=
  (incoming.filter (·.id = id)).foldl (fun old row => some (mergeMessageRow old row)) (old.bind (· id))

/-- A batch caches the sessions of its rows. -/
def upserted (rows : List MessageRow) (c : Contents) : Contents := fun sessionId =>
  let own := rows.filter (·.sessionId = sessionId)
  if own = [] then c sessionId else some (putRows own (c sessionId))

/-- A message is changed where it is cached. -/
def changed (id : Str) (f : MessageRow → MessageRow) (c : Contents) : Contents := fun sessionId =>
  (c sessionId).map fun rows id' => if id' = id ∧ sessionId ≠ [] then (rows id').map f else rows id'

/-- Sessions are taken away. -/
def evicted (victims : List Str) (c : Contents) : Contents := fun sessionId =>
  if sessionId ∈ victims then none else c sessionId

/-- What a call does to the messages, evictions apart. -/
def CacheCall.spec : CacheCall → Contents → Contents
  | upsert rows => upserted rows
  | setParts messageId partsJson =>
    changed messageId fun row => { row with partsJson := some (some partsJson) }
  | softDelete id deletedAt => changed id fun row => { row with deletedAt := some (some deletedAt) }
  | load .. | prune _ => fun c => c

/-- The session that the prune of a call spares, where `found` is the session in which a message is found; a call
    without a prune has none. -/
def CacheCall.prunes (found : Str → Option Str) : CacheCall → Option (Option Str)
  | upsert rows => if rows = [] then none else some (rows.head?.map (·.sessionId))
  | load sessionId _ => some (some sessionId)
  | setParts messageId _ => (found messageId).map some
  | softDelete .. => none
  | prune protectSessionId => some protectSessionId

/-! ## What holds between two calls -/

/-- The metadata is true of what is stored.  `home` is the session of each message. -/
structure Sound (home : Str → Str) (s : Storage) : Prop where
  blobs : BlobsOk s
  home : ∀ sessionId id, ∀ rows ∈ s.blobs.get sessionId, (findRow rows id).isSome → home id = sessionId
  sizes : ∀ sessionId, (s.current.sessions.get sessionId).map (·.bytes) =
    (s.blobs.get sessionId).map estimateBytes
  index : ∀ id sessionId, s.current.idIndex.get id = some sessionId ↔
    ∃ rows ∈ s.blobs.get sessionId, (findRow rows id).isSome

variable {home : Str → Str} {s : Storage}

/-- The messages of a session that is not cached are none. -/
theorem findRow_getD (sessionId id : Str) : findRow (s.rows sessionId) id =
    (s.contents sessionId).bind (· id) := by
  rw [Storage.contents, Storage.rows]
  cases s.blobs.get sessionId <;> rfl

/-- What is read for a session is as it is stored for it. -/
theorem BlobsOk.getD (h : BlobsOk s) (sessionId : Str) :
    BlobOk sessionId (s.rows sessionId) := by
  rw [Storage.rows]
  cases hget : s.blobs.get sessionId with
  | none => exact blobOk_nil sessionId
  | some rows => exact h sessionId rows hget

theorem isSome_findRow {rows : List MessageRow} {id : Str} :
    (findRow rows id).isSome ↔ ∃ row ∈ rows, row.id = id := by
  rw [findRow, List.find?_isSome]
  simp

/-- The index after the rows of a session are written. -/
private theorem get_index (index : OrderedMap Str Str) (sessionId : Str) (rows : List MessageRow) (id : Str) :
    (rows.foldl (fun index row => index.put row.id sessionId) index).get id =
      if (findRow rows id).isSome then some sessionId else index.get id := by
  rw [OrderedMap.get_foldl_put (fun row : MessageRow => row.id) (fun _ _ => sessionId)]
  induction rows with
  | nil => rfl
  | cons row rows ih =>
    by_cases hid : row.id = id
    · rw [List.filter_cons_of_pos (by simpa using hid), findRow,
        List.find?_cons_of_pos (by simpa using hid), List.foldl_cons, Option.isSome_some, if_pos rfl]
      have hconst (l : List MessageRow) : l.foldl (fun _ _ => some sessionId) (some sessionId) = some sessionId := by
        induction l with
        | nil => rfl
        | cons _ _ ih => exact ih
      exact hconst _
    · rw [List.filter_cons_of_neg (by simpa using hid), ih, findRow, findRow,
        List.find?_cons_of_neg (by simpa using hid)]

theorem contents_write (sessionId : Str) (rows : List MessageRow) (now : Nat) (other : Str) :
    (s.write sessionId rows now).contents other =
      if other = sessionId then some (findRow rows) else s.contents other := by
  rw [Storage.contents, Storage.write, OrderedMap.get_put]
  split <;> rfl

theorem contents_evict (victims : List Str) : (s.evict victims).contents = evicted victims s.contents := by
  funext sessionId
  rw [Storage.contents, Storage.evict, OrderedMap.get_filter_notMem victims, evicted]
  split <;> rfl

/-- Rows of a session are written that have all its messages. -/
theorem Sound.write (h : Sound home s) {sessionId : Str} {rows : List MessageRow}
    (hrows : BlobOk sessionId rows) (hhome : ∀ row ∈ rows, home row.id = sessionId)
    (hall : ∀ id, (findRow (s.rows sessionId) id).isSome → (findRow rows id).isSome)
    (now : Nat) : Sound home (s.write sessionId rows now) := by
  refine ⟨fun other rows' hget => ?_, fun other id rows' hget hrow => ?_, fun other => ?_, fun id other => ?_⟩
  · rw [Storage.write, OrderedMap.get_put] at hget
    split at hget
    · next heq =>
      cases hget
      exact heq ▸ hrows
    · exact h.blobs other rows' hget
  · rw [Storage.write, OrderedMap.get_put] at hget
    split at hget
    · next heq =>
      cases hget
      obtain ⟨row, hmem, rfl⟩ := isSome_findRow.mp hrow
      rw [hhome row hmem, heq]
    · exact h.home other id rows' hget hrow
  · change ((s.current.sessions.put sessionId _).get other).map _ =
      ((s.blobs.put sessionId rows).get other).map _
    rw [OrderedMap.get_put, OrderedMap.get_put]
    split
    · rfl
    · exact h.sizes other
  · change (rows.foldl _ s.current.idIndex).get id = some other ↔
      ∃ rows' ∈ (s.blobs.put sessionId rows).get other, _
    rw [get_index, OrderedMap.get_put]
    -- a written row is in no other session, since its id has one home
    by_cases hid : (findRow rows id).isSome
    · obtain ⟨row, hmem, hrow⟩ := isSome_findRow.mp hid
      rw [if_pos hid, Option.some_inj]
      constructor
      · rintro rfl
        exact ⟨rows, by simp, hid⟩
      · rintro ⟨rows', hget, hrow'⟩
        split at hget
        · next heq => exact heq.symm
        · rw [← h.home other id rows' hget hrow', ← hrow, hhome row hmem]
    · rw [if_neg hid, h.index]
      by_cases heq : other = sessionId
      · subst heq
        rw [if_pos rfl]
        constructor
        · rintro ⟨rows', hget, hrow'⟩
          refine absurd (hall id ?_) hid
          rw [Storage.rows, Option.mem_def.mp hget]
          exact hrow'
        · rintro ⟨rows', hget, hrow'⟩
          cases hget
          exact absurd hrow' hid
      · rw [if_neg heq]

/-- Sessions are evicted. -/
theorem Sound.evict (h : Sound home s) (victims : List Str) : Sound home (s.evict victims) := by
  have hblobs (sessionId : Str) : (s.evict victims).blobs.get sessionId =
      if sessionId ∈ victims then none else s.blobs.get sessionId := OrderedMap.get_filter_notMem victims
  have hrest {sessionId : Str} {rows : List MessageRow}
      (hget : rows ∈ (s.evict victims).blobs.get sessionId) :
      sessionId ∉ victims ∧ rows ∈ s.blobs.get sessionId := by
    rw [hblobs] at hget
    split at hget
    · cases hget
    · next hnot => exact ⟨hnot, hget⟩
  refine ⟨fun sessionId rows hget => h.blobs sessionId rows (hrest hget).2,
    fun sessionId id rows hget => h.home sessionId id rows (hrest hget).2, fun sessionId => ?_,
    fun id sessionId => ?_⟩
  · change ((s.current.sessions.filter _).get sessionId).map _ = _
    rw [hblobs, OrderedMap.get_filter_notMem victims]
    split
    · rfl
    · exact h.sizes sessionId
  · change (s.current.idIndex.filter _).get id = _ ↔ _
    rw [OrderedMap.get_filter, Option.filter_eq_some_iff, h.index, hblobs]
    by_cases hmem : sessionId ∈ victims
    · simp [hmem]
    · simp [hmem]

/-! ## One call -/

/-- Each message of the call is one of its own session. -/
def CacheCall.Homed (home : Str → Str) : CacheCall → Prop
  | upsert rows => ∀ row ∈ rows, home row.id = row.sessionId
  | _ => True

/-- What a call does to the contents: its own change, and evictions of other sessions than the one that it
    spares. -/
def CacheStep (home : Str → Str) (c : CacheCall) (before after : Contents) : Prop :=
  ∃ victims : List Str, (∀ id ∈ victims, ∃ p, c.prunes (fun id => some (home id)) = some p ∧
      some id ≠ protectedId p) ∧
    after = evicted victims (c.spec before)

/-- Evictions after the change of a call. -/
private theorem step_prune {c : CacheCall} {p : Option Str} (hp : c.prunes (fun id => some (home id)) = some p)
    {before : Contents}
    (h : Sound home s) (hspec : s.contents = c.spec before) :
    wp Reads (fun _ s' => Sound home s' ∧ CacheStep home c before s'.contents) (pruneExtensionMessageCache p) s := by
  refine wp_prune (fun _ => ⟨h, [], by simp, ?_⟩) fun _ => ⟨h.evict _, s.victims p, fun id hid => ?_, ?_⟩
  · rw [hspec]
    funext sessionId
    rw [evicted, if_neg List.not_mem_nil]
  · exact ⟨p, hp, (evictsLru _ _ _ _).spared id hid⟩
  · rw [contents_evict, hspec]

/-- A call that only changes a message. -/
private theorem step_of_spec {c : CacheCall} {before : Contents} (hspec : s.contents = c.spec before) :
    CacheStep home c before s.contents := by
  refine ⟨[], by simp, ?_⟩
  rw [hspec]
  funext sessionId
  rw [evicted, if_neg List.not_mem_nil]

/-- Rows are merged into the session that they are from. -/
private theorem Sound.merge (h : Sound home s) {sessionId : Str} {incoming : List MessageRow}
    (hincoming : ∀ row ∈ incoming, row.sessionId = sessionId ∧ home row.id = sessionId) (now : Nat) :
    Sound home (s.write sessionId (mergeRows (s.rows sessionId) incoming) now) := by
  have hexisting := h.blobs.getD sessionId
  have hmerged := findRow_mergeRows hexisting.distinct incoming
  have hok := mergeRows_ok hexisting fun row hrow => (hincoming row hrow).1
  refine h.write hok (fun row hrow => ?_) (fun id hsome => ?_) now
  · have hfind := (findRow_eq_some_iff hok.distinct).mpr ⟨hrow, rfl⟩
    rw [hmerged] at hfind
    -- a row of the blob is an old one, or one of the new rows of its id
    by_cases hnew : incoming.filter (·.id = row.id) = []
    · rw [hnew, List.foldl_nil, Storage.rows] at hfind
      cases hget : s.blobs.get sessionId with
      | none =>
        rw [hget] at hfind
        cases hfind
      | some rows =>
        rw [hget] at hfind
        exact h.home sessionId row.id rows hget (Option.isSome_iff_exists.mpr ⟨row, hfind⟩)
    · obtain ⟨other, hother⟩ := List.exists_mem_of_ne_nil _ hnew
      obtain ⟨hother, hid⟩ := List.mem_filter.mp hother
      rw [← of_decide_eq_true hid]
      exact (hincoming other hother).2
  · rw [hmerged]
    generalize incoming.filter (·.id = id) = own
    revert hsome
    generalize findRow (s.rows sessionId) id = old
    intro hsome
    induction own generalizing old with
    | nil => exact hsome
    | cons row own ih => exact ih _ rfl

/-- The loop of an upsert over the sessions of its rows. -/
private theorem wp_upsertSessions (h : Sound home s) (groups : OrderedMap Str (List MessageRow))
    (hgroups : ∀ sessionId, ∀ rows ∈ groups.get sessionId, ∀ row ∈ rows,
      row.sessionId = sessionId ∧ home row.id = sessionId) :
    wp Reads (fun _ s' => Sound home s' ∧ ∀ sessionId, s'.contents sessionId =
      match groups.get sessionId with
      | some rows => some (putRows rows (s.contents sessionId))
      | none => s.contents sessionId) (upsertSessions groups.entries s.current) s := by
  obtain ⟨entries, hnodup⟩ := groups
  change wp Reads _ (upsertSessions entries s.current) s
  induction entries generalizing s with
  | nil => exact ⟨h, fun _ => rfl⟩
  | cons e rest ih =>
    obtain ⟨sessionId, incoming⟩ := e
    obtain ⟨hnot, hrest⟩ := List.nodup_cons.mp hnodup
    have hincoming := hgroups sessionId incoming (OrderedMap.get_cons_self hnodup)
    rw [upsertSessions, wp_bind, wp_readSessionRows, wp_bind, wp_writeSessionRows]
    intro now
    have hmerged := findRow_mergeRows (h.blobs.getD sessionId).distinct incoming
    have hsound := h.merge hincoming now
    -- the sessions of the map are different, so the rest does not touch this one
    have hrestGroups : ∀ other, ∀ rows ∈ OrderedMap.get ⟨rest, hrest⟩ other, ∀ row ∈ rows,
        row.sessionId = other ∧ home row.id = other := by
      intro other rows hget
      refine hgroups other rows ?_
      have hne : other ≠ sessionId := by
        rintro rfl
        exact hnot (OrderedMap.mem_keys_iff.mpr (Option.isSome_iff_exists.mpr ⟨rows, hget⟩))
      exact (OrderedMap.get_cons_of_ne hne hnodup).trans hget
    refine wp_mono ?_ (ih hsound hrest hrestGroups)
    rintro - s' ⟨hsound', hcontents⟩
    refine ⟨hsound', fun other => ?_⟩
    rw [hcontents, contents_write]
    by_cases hother : other = sessionId
    · subst hother
      have hnone : OrderedMap.get ⟨rest, hrest⟩ other = none := OrderedMap.get_eq_none hnot
      rw [hnone, OrderedMap.get_cons_self hnodup, if_pos rfl]
      refine congrArg some (funext fun id => ?_)
      rw [hmerged, findRow_getD]
      rfl
    · rw [OrderedMap.get_cons_of_ne hother hnodup, if_neg hother]

private theorem wp_upsert (h : Sound home s) (rows : List MessageRow)
    (hhome : ∀ row ∈ rows, home row.id = row.sessionId) :
    wp Reads (fun _ s' => Sound home s' ∧ CacheStep home (.upsert rows) s.contents s'.contents)
      (upsertExtensionMessagesBatch rows) s := by
  rw [upsertExtensionMessagesBatch]
  split
  · next hnil =>
    subst hnil
    exact ⟨h, step_of_spec (funext fun sessionId => by simp [CacheCall.spec, upserted])⟩
  · next hne =>
    rw [wp_bind, wp_readMeta, wp_bind]
    have hgroups : ∀ sessionId, ∀ own ∈ (bySession rows).get sessionId, ∀ row ∈ own,
        row.sessionId = sessionId ∧ home row.id = sessionId := by
      intro sessionId own hown row hrow
      rw [get_bySession] at hown
      split at hown
      · cases hown
      · cases hown
        obtain ⟨hmem, hsession⟩ := List.mem_filter.mp hrow
        have hsession := of_decide_eq_true hsession
        exact ⟨hsession, (hhome row hmem).trans hsession⟩
    refine wp_mono ?_ (wp_upsertSessions h (bySession rows) hgroups)
    rintro - s' ⟨hsound, hcontents⟩
    rw [wp_bind]
    refine wp_mono (fun _ _ h => h) (step_prune (c := .upsert rows) ?_ hsound ?_)
    · rw [CacheCall.prunes, if_neg hne]
    · funext sessionId
      rw [hcontents, get_bySession]
      simp only [CacheCall.spec, upserted]
      split <;> split <;> simp_all

/-- Whether the rows of a session have the message. -/
def Storage.holds (s : Storage) (messageId sessionId : Str) : Bool := (s.rows sessionId).any (·.id == messageId)

/-- Where a message is looked for and found: in the session of the index, or in one that has it. -/
def Storage.place (s : Storage) (messageId : Str) : Option Str :=
  match (s.current.idIndex.get messageId).filter (· ≠ []) with
  | some sessionId => some sessionId
  | none => (s.current.sessions.keys.find? (s.holds messageId)).filter (· ≠ [])

/-- The scan returns the rows of the first session that has the message. -/
private theorem wp_scanSessions {Q : Option (Str × List MessageRow) → Storage → Prop} {messageId : Str}
    (sessionIds : List Str) : wp Reads Q (scanSessions messageId sessionIds) s ↔
      Q ((sessionIds.find? (s.holds messageId)).map fun sessionId => (sessionId, s.rows sessionId)) s := by
  induction sessionIds with
  | nil => exact Iff.rfl
  | cons sessionId rest ih =>
    rw [scanSessions, wp_bind, wp_readSessionRows, List.find?_cons]
    change wp Reads Q (if s.holds messageId sessionId = true then _ else _) s ↔ _
    cases s.holds messageId sessionId with
    | true => exact Iff.rfl
    | false => exact ih

/-- What is found is the place of the message and its rows. -/
theorem wp_findRows_iff {Q : Option (Str × List MessageRow) → Storage → Prop} {messageId : Str} :
    wp Reads Q (findRows s.current messageId) s ↔
      Q ((s.place messageId).map fun sessionId => (sessionId, s.rows sessionId)) s := by
  rw [findRows, Storage.place]
  cases (s.current.idIndex.get messageId).filter (· ≠ []) with
  | some sessionId =>
    dsimp only
    rw [wp_bind, wp_readSessionRows]
    rfl
  | none =>
    dsimp only
    rw [wp_bind, wp_scanSessions, wp_pure, Option.filter_map]
    rfl

/-- The session of a message is the one of the index; a scan finds nothing else. -/
private theorem wp_findRows (h : Sound home s) {Q : Option (Str × List MessageRow) → Storage → Prop}
    {messageId : Str}
    (hsome : ∀ sessionId, s.current.idIndex.get messageId = some sessionId → sessionId ≠ [] →
      Q (some (sessionId, s.rows sessionId)) s)
    (hnone : (∀ sessionId, s.current.idIndex.get messageId = some sessionId → sessionId = []) → Q none s) :
    wp Reads Q (findRows s.current messageId) s := by
  rw [wp_findRows_iff, Storage.place]
  split
  · next sessionId hindex =>
    obtain ⟨hindex, hne⟩ := Option.filter_eq_some_iff.mp hindex
    exact hsome sessionId hindex (by simpa using hne)
  · next hindex =>
    have hempty : ∀ sessionId, s.current.idIndex.get messageId = some sessionId → sessionId = [] := by
      intro sessionId hget
      by_contra hne
      rw [hget, Option.filter_some, if_pos (by simpa using hne)] at hindex
      cases hindex
    -- what a scan would find is in the index already
    have hfilter : (s.current.sessions.keys.find? (s.holds messageId)).filter (· ≠ []) = none := by
      rw [Option.filter_eq_none_iff]
      intro sessionId hfound hne
      have hholds : s.holds messageId sessionId = true := List.find?_some hfound
      obtain ⟨row, hrow, hid⟩ := List.any_eq_true.mp hholds
      rw [Storage.rows] at hrow
      cases hget : s.blobs.get sessionId with
      | none =>
        rw [hget] at hrow
        cases hrow
      | some rows =>
        rw [hget] at hrow
        refine of_decide_eq_true hne (hempty sessionId ((h.index messageId sessionId).mpr ⟨rows, hget, ?_⟩))
        exact isSome_findRow.mpr ⟨row, hrow, by simpa using hid⟩
    rw [hfilter]
    exact hnone hempty

/-- A message that is in no session with an id. -/
private theorem changed_absent (h : Sound home s) {id : Str}
    (habsent : ∀ sessionId, s.current.idIndex.get id = some sessionId → sessionId = [])
    (f : MessageRow → MessageRow) : s.contents = changed id f s.contents := by
  funext sessionId
  rw [changed, Storage.contents]
  cases hget : s.blobs.get sessionId with
  | none => rfl
  | some rows =>
    refine congrArg some (funext fun id' => ?_)
    dsimp only
    split
    · next hid =>
      obtain ⟨rfl, hne⟩ := hid
      cases hrow : findRow rows id' with
      | none => rfl
      | some row =>
        exact absurd (habsent sessionId ((h.index id' sessionId).mpr ⟨rows, hget, by rw [hrow]; rfl⟩)) hne
    · rfl

/-- A message that is changed in its session. -/
private theorem change_row (h : Sound home s) {sessionId id : Str}
    (hindex : s.current.idIndex.get id = some sessionId) (hne : sessionId ≠ []) {f : MessageRow → MessageRow}
    (hid : ∀ row, (f row).id = row.id) (hsession : ∀ row, (f row).sessionId = row.sessionId)
    (hcreated : ∀ row, (f row).createdAt = row.createdAt) (now : Nat) :
    Sound home (s.write sessionId ((s.rows sessionId).map fun row =>
      if row.id = id then f row else row) now) ∧
    (s.write sessionId ((s.rows sessionId).map fun row =>
      if row.id = id then f row else row) now).contents = changed id f s.contents := by
  obtain ⟨rows, hget, -⟩ := (h.index id sessionId).mp hindex
  have hget : s.blobs.get sessionId = some rows := hget
  have hmapId : ∀ row, (if row.id = id then f row else row).id = row.id := by
    intro row
    split
    · exact hid row
    · rfl
  have hfind := @findRow_map rows (fun row => if row.id = id then f row else row) hmapId
  rw [Storage.rows, hget, Option.getD_some]
  refine ⟨h.write ?_ (fun row hrow => ?_) (fun id' hsome => ?_) now, funext fun other => ?_⟩
  · refine (h.blobs sessionId rows hget).map hmapId ?_ ?_ <;> intro row <;> split
    · exact hsession row
    · rfl
    · exact hcreated row
    · rfl
  · obtain ⟨old, hold, rfl⟩ := List.mem_map.mp hrow
    rw [hmapId]
    exact h.home sessionId old.id rows hget (isSome_findRow.mpr ⟨old, hold, rfl⟩)
  · rw [Storage.rows, hget, Option.getD_some] at hsome
    rw [hfind]
    simpa using hsome
  · rw [contents_write, changed]
    split
    · next heq =>
      subst heq
      rw [Storage.contents, hget]
      refine congrArg some (funext fun id' => ?_)
      rw [hfind]
      dsimp only
      cases hrow : findRow rows id' with
      | none => split <;> rfl
      | some row =>
        have hid' := ((findRow_eq_some_iff (h.blobs other rows hget).distinct).mp hrow).2
        subst hid'
        by_cases heq : row.id = id
        · rw [if_pos ⟨heq, hne⟩, Option.map_some, Option.map_some, if_pos heq]
        · rw [if_neg fun hboth => heq hboth.1, Option.map_some, if_neg heq]
    · next hother =>
      rw [Storage.contents]
      cases hget' : s.blobs.get other with
      | none => rfl
      | some rows' =>
        refine congrArg some (funext fun id' => ?_)
        dsimp only
        split
        · next hboth =>
          obtain ⟨rfl, -⟩ := hboth
          cases hrow : findRow rows' id' with
          | none => rfl
          | some row =>
            -- The index has one session for the message.
            have := (h.index id' other).mpr ⟨rows', hget', by rw [hrow]; rfl⟩
            rw [hindex, Option.some_inj] at this
            exact absurd this.symm hother
        · rfl

private theorem wp_setParts (h : Sound home s) (messageId partsJson : Str) :
    wp Reads (fun _ s' => Sound home s' ∧ CacheStep home (.setParts messageId partsJson) s.contents s'.contents)
      (setExtensionMessageParts messageId partsJson) s := by
  rw [setExtensionMessageParts, wp_bind, wp_readMeta, wp_bind]
  refine wp_findRows h (fun sessionId hindex hne => ?_) fun habsent => ?_
  · obtain ⟨rows, hget, hrow⟩ := (h.index messageId sessionId).mp hindex
    have hany : (s.rows sessionId).any (·.id == messageId) = true := by
      rw [Storage.rows, Option.mem_def.mp hget, Option.getD_some, List.any_eq_true]
      rwa [findRow, List.find?_isSome] at hrow
    dsimp only
    rw [hany, if_neg (by simp), wp_bind, wp_writeSessionRows]
    intro now
    obtain ⟨hsound, hcontents⟩ := @change_row _ _ h _ _ hindex hne
      (fun row => { row with partsJson := some (some partsJson) }) (fun _ => rfl) (fun _ => rfl)
      (fun _ => rfl) now
    rw [wp_bind]
    refine wp_mono (fun _ _ h => h) (step_prune (c := .setParts messageId partsJson) ?_ hsound hcontents)
    rw [CacheCall.prunes, h.home sessionId messageId rows hget hrow, Option.map_some]
  · exact ⟨h, step_of_spec (changed_absent h habsent _)⟩

private theorem wp_softDelete (h : Sound home s) (id deletedAt : Str) :
    wp Reads (fun _ s' => Sound home s' ∧ CacheStep home (.softDelete id deletedAt) s.contents s'.contents)
      (softDeleteExtensionMessage id deletedAt) s := by
  rw [softDeleteExtensionMessage, wp_bind, wp_readMeta]
  split
  · next hindex =>
    refine ⟨h, step_of_spec (changed_absent h (fun sessionId hget => ?_) _)⟩
    by_contra hne
    rw [hget, Option.filter_some, if_pos (by simpa using hne)] at hindex
    cases hindex
  · next sessionId hindex =>
    obtain ⟨hindex, hne⟩ := Option.filter_eq_some_iff.mp hindex
    rw [wp_bind, wp_readSessionRows, wp_bind, wp_writeSessionRows]
    intro now
    obtain ⟨hsound, hcontents⟩ := @change_row _ _ h _ _ hindex (by simpa using hne)
      (fun row => { row with deletedAt := some (some deletedAt) }) (fun _ => rfl) (fun _ => rfl)
      (fun _ => rfl) now
    exact ⟨hsound, step_of_spec hcontents⟩

/-- The time of access is not part of what the cache keeps. -/
private theorem wp_touchSession (h : Sound home s) (sessionId : Str) :
    wp Reads (fun _ s' => Sound home s' ∧ s'.contents = s.contents) (touchSession sessionId s.current) s := by
  rw [touchSession]
  split
  · next session hsession =>
    rw [wp_bind, wp_dateNow]
    intro now
    rw [wp_writeMeta]
    refine ⟨⟨h.blobs, h.home, fun other => ?_, h.index⟩, rfl⟩
    rw [← h.sizes other]
    change ((s.current.sessions.put sessionId _).get other).map _ = _
    rw [OrderedMap.get_put]
    split
    · next heq => rw [heq, hsession]; rfl
    · rfl
  · exact ⟨h, rfl⟩

/-- A load changes nothing that the cache keeps, and the prune that it leaves running spares its session. -/
private theorem wp_load (h : Sound home s) (sessionId : Str) (includeDeleted : Bool) :
    wp Reads (fun _ s' => Sound home s' ∧ CacheStep home (.load sessionId includeDeleted) s.contents s'.contents)
      (CacheCall.load sessionId includeDeleted).program s := by
  rw [CacheCall.program, wp_bind, loadExtensionMessagesForSession, wp_bind, wp_readSessionRows, wp_bind, wp_readMeta,
    wp_bind]
  refine wp_mono ?_ (wp_touchSession h sessionId)
  rintro - s' ⟨hsound, hcontents⟩
  rw [wp_pure, wp_bind]
  exact wp_mono (fun _ _ h => h) (step_prune (c := .load sessionId includeDeleted) rfl hsound hcontents)

/-- What one call does. -/
theorem wp_call (h : Sound home s) (c : CacheCall) (hc : c.Homed home) :
    wp Reads (fun _ s' => Sound home s' ∧ CacheStep home c s.contents s'.contents) c.program s := by
  cases c with
  | upsert rows => exact wp_upsert h rows hc
  | load sessionId includeDeleted => exact wp_load h sessionId includeDeleted
  | setParts messageId partsJson =>
    exact (wp_bind _ _ _ s).mpr (wp_mono (fun _ _ h => h) (wp_setParts h messageId partsJson))
  | softDelete id deletedAt => exact wp_softDelete h id deletedAt
  | prune protectSessionId =>
    exact (wp_bind _ _ _ s).mpr (wp_mono (fun _ _ h => h)
      (step_prune (c := .prune protectSessionId) rfl h rfl))

/-! ## Runs -/

/-- A run of the map. -/
inductive ContentsRun (home : Str → Str) : Contents → List CacheCall → Contents → Prop
  | nil (c : Contents) : ContentsRun home c [] c
  | cons {c c' c'' : Contents} {next : CacheCall} {rest : List CacheCall} :
      CacheStep home next c c' → ContentsRun home c' rest c'' → ContentsRun home c (next :: rest) c''

theorem sound_empty (home : Str → Str) : Sound home emptyStorage :=
  ⟨fun _ _ h => (by cases h), fun _ _ _ h => (by cases h), fun _ => rfl, fun _ _ =>
    ⟨fun h => (by cases h), fun ⟨_, h, _⟩ => (by cases h)⟩⟩

theorem reads_clock (times : Nat → Nat) (n : Nat) : Reads (clock times n) := rfl

private theorem run_from {inputs : List (CacheCall × (Nat → Nat))}
    (hinputs : ∀ input ∈ inputs, input.1.Homed home) (h : Sound home s) :
    Sound home (cache.runFrom s inputs) ∧
      ContentsRun home s.contents (inputs.map Prod.fst) (cache.runFrom s inputs).contents := by
  induction inputs generalizing s with
  | nil => exact ⟨h, .nil _⟩
  | cons input inputs ih =>
    rw [Machine.runFrom_cons]
    obtain ⟨hsound, hstep⟩ := wp_run (wp_call h input.1 (hinputs _ List.mem_cons_self)) (reads_clock input.2)
    obtain ⟨hsound', hrun⟩ := ih (fun i hi => hinputs i (List.mem_cons_of_mem _ hi)) hsound
    exact ⟨hsound', .cons hstep hrun⟩

/-- A message of the session `a`. -/
def greeting : MessageRow :=
  { id := ['m'], teamId := [], sessionId := ['a'], turnId := none, senderActorId := none,
    replyToMessageId := none, kind := [], content := ['h', 'i'], metadataJson := none, model := none,
    mentionsJson := none, origin := [], createdAt := ['1'], updatedAt := ['1'], deletedAt := none,
    syncedAt := ['1'], partsJson := none }

/-- The message is stored, and deleted. -/
def greetingDeleted : List (CacheCall × (Nat → Nat)) :=
  [(.upsert [greeting], fun n => n), (.softDelete ['m'] ['2'], fun n => n)]

private theorem homed_greetingDeleted :
    ∀ input ∈ greetingDeleted, input.1.Homed fun _ => ['a'] := by
  simp [greetingDeleted, CacheCall.Homed, greeting]

/-- Calls that do not overlap: the metadata has exactly the sessions that are stored, with their sizes, and
    the index has exactly the stored messages, with their sessions. -/
theorem metadata_true (home : Str → Str) (inputs : List (CacheCall × (Nat → Nat)))
    (hinputs : ∀ input ∈ inputs, input.1.Homed home) :
    (∀ sessionId, ((cache.run inputs).current.sessions.get sessionId).map (·.bytes) =
      ((cache.run inputs).blobs.get sessionId).map estimateBytes) ∧
    ∀ id sessionId, (cache.run inputs).current.idIndex.get id = some sessionId ↔
      ∃ rows ∈ (cache.run inputs).blobs.get sessionId, ∃ row ∈ rows, row.id = id := by
  obtain ⟨hsound, -⟩ := run_from hinputs (sound_empty home)
  refine ⟨hsound.sizes, fun id sessionId => (hsound.index id sessionId).trans ?_⟩
  simp only [isSome_findRow]
  rfl

theorem metadata_true_greeting : (cache.run greetingDeleted).current.idIndex.get ['m'] = some ['a'] ↔
    ∃ rows ∈ (cache.run greetingDeleted).blobs.get ['a'], ∃ row ∈ rows, row.id = ['m'] :=
  (metadata_true (fun _ => ['a']) greetingDeleted homed_greetingDeleted).2 ['m'] ['a']

/-- Calls that do not overlap: the runs of the cache are runs of the map from sessions to messages, in which
    whole sessions are evicted and nothing else is lost. -/
theorem refines (home : Str → Str) (inputs : List (CacheCall × (Nat → Nat)))
    (hinputs : ∀ input ∈ inputs, input.1.Homed home) :
    ContentsRun home (fun _ => none) (inputs.map Prod.fst) (cache.run inputs).contents :=
  (run_from hinputs (sound_empty home)).2

theorem refines_greeting : ContentsRun (fun _ => ['a']) (fun _ => none) (greetingDeleted.map Prod.fst)
    (cache.run greetingDeleted).contents :=
  refines (fun _ => ['a']) greetingDeleted homed_greetingDeleted

end TeamClu.MessageCache
