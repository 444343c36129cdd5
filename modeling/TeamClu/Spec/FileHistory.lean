import TeamClu.ForStd.Machine
import TeamClu.Native.FileHistory
import TeamClu.Spec.ManifestFilter

/-!
# A linear history and a drain without gaps

A completed write moves one row from its parent version to the next, under a fresh `change_seq`
(`Moves`).  So the versions of a file are a chain, and a row that a client has not read yet is always
behind its cursor (`history_linear_drain_complete`).
-/

namespace TeamClu.Fc

/-! ## What a write does to the rows -/

/-- The write moved the row of the path from the parent version to the row. -/
structure Moves (db db' : TeamFiles) (path : Str) (parentVersion : Nat) (row : FileRow) : Prop where
  seq : db'.ossChangeSeq = db.ossChangeSeq + 1
  path_eq : row.path = path
  version : row.currentVersion = parentVersion + 1
  changeSeq : row.changeSeq = db'.ossChangeSeq
  /-- There was a row with this id, or the row is the first of its path. -/
  old : (∃ r ∈ db.files, r.id = row.id ∧ r.path = path ∧ r.currentVersion = parentVersion) ∨
    (parentVersion = 0 ∧ row.id ∉ db.files.map (·.id) ∧ path ∉ db.files.map (·.path))
  mem : ∀ r, r ∈ db'.files ↔ r = row ∨ (r ∈ db.files ∧ r.id ≠ row.id)
  ids : (db'.files.map (·.id)).Nodup
  paths : (db'.files.map (·.path)).Nodup

/-- Rows of different ids and paths. -/
structure TeamFiles.Keyed (db : TeamFiles) : Prop where
  ids : (db.files.map (·.id)).Nodup
  paths : (db.files.map (·.path)).Nodup

/-- Updating the one row that has an id. -/
private theorem mem_map_update {rows : List FileRow} (hids : (rows.map (·.id)).Nodup) {row : FileRow}
    (hrow : row ∈ rows) (f : FileRow → FileRow) (r : FileRow) :
    r ∈ rows.map (fun r => if r.id = row.id then f r else r) ↔
      r = f row ∨ (r ∈ rows ∧ r.id ≠ row.id) := by
  rw [List.mem_map]
  constructor
  · rintro ⟨x, hx, rfl⟩
    by_cases hid : x.id = row.id
    · rw [if_pos hid, List.inj_on_of_nodup_map hids hx hrow hid]
      exact Or.inl rfl
    · rw [if_neg hid]
      exact Or.inr ⟨hx, hid⟩
  · rintro (rfl | ⟨hr, hid⟩)
    · exact ⟨row, hrow, if_pos rfl⟩
    · exact ⟨r, hr, if_neg hid⟩

/-- Updating a row keeps what the update does not touch. -/
private theorem map_update {α : Type} {g : FileRow → α} {f : FileRow → FileRow}
    (hg : ∀ r, g (f r) = g r) (rows : List FileRow) (id : Nat) :
    (rows.map fun r => if r.id = id then f r else r).map g = rows.map g := by
  rw [List.map_map]
  refine List.map_congr_left fun r _ => ?_
  rw [Function.comp_apply]
  split
  · exact hg r
  · rfl

/-- Updating one row of a keyed table moves it. -/
private theorem moves_of_update {db : TeamFiles} {base : List FileRow} {row : FileRow}
    (hids : (base.map (·.id)).Nodup) (hpaths : (base.map (·.path)).Nodup) (hrow : row ∈ base)
    {f : FileRow → FileRow} (hid : ∀ r, (f r).id = r.id) (hpath : ∀ r, (f r).path = r.path)
    (hversion : (f row).currentVersion = row.currentVersion + 1)
    (hseq : (f row).changeSeq = db.ossChangeSeq + 1)
    (hbase : ∀ r, r.id ≠ row.id → (r ∈ base ↔ r ∈ db.files))
    (hold : (∃ r ∈ db.files, r.id = row.id ∧ r.path = row.path ∧
        r.currentVersion = row.currentVersion) ∨
      (row.currentVersion = 0 ∧ row.id ∉ db.files.map (·.id) ∧ row.path ∉ db.files.map (·.path))) :
    Moves db { ossChangeSeq := db.ossChangeSeq + 1
               files := base.map fun r => if r.id = row.id then f r else r }
      row.path row.currentVersion (f row) where
  seq := rfl
  path_eq := hpath row
  version := hversion
  changeSeq := hseq
  old := by rw [hid]; exact hold
  mem r := by
    rw [hid, mem_map_update hids hrow]
    exact or_congr_right (and_congr_left fun hne => hbase r hne)
  ids := by rw [map_update hid]; exact hids
  paths := by rw [map_update hpath]; exact hpaths

private theorem find?_path_eq_none {db : TeamFiles} {path : Str} :
    db.files.find? (·.path == path) = none ↔ path ∉ db.files.map (·.path) := by
  simp [List.find?_eq_none]

private theorem of_find?_path {db : TeamFiles} {path : Str} {row : FileRow}
    (h : db.files.find? (·.path == path) = some row) : row ∈ db.files ∧ row.path = path :=
  ⟨List.mem_of_find?_eq_some h, by simpa using List.find?_some h⟩

/-- A completed upload moves the row of its path. -/
theorem completeUpload_moves {db db' : TeamFiles} (hkeyed : db.Keyed) {newId : Nat} {path : Str}
    {parentVersion : Nat} {contentHash : Str} {size : Nat}
    (hid : (db.files.find? (·.path == path)).isNone → newId ∉ db.files.map (·.id))
    (h : completeUpload db newId path parentVersion contentHash size = .ok db') :
    ∃ row, Moves db db' path parentVersion row ∧ row.id = db.fileId path newId ∧
      row.contentHash = some contentHash := by
  unfold completeUpload at h
  unfold TeamFiles.fileId
  cases hfind : db.files.find? (·.path == path) with
  -- the file is known: its row moves on
  | some row =>
    obtain ⟨hmem, rfl⟩ := of_find?_path hfind
    have hany : db.files.any (·.path == row.path) = true :=
      List.any_eq_true.mpr ⟨row, hmem, by simp⟩
    simp only [hany, if_true, hfind] at h
    split at h
    · cases h
    · next hversion =>
      obtain rfl := not_not.mp hversion
      cases h
      refine ⟨_, moves_of_update hkeyed.ids hkeyed.paths hmem (fun _ => rfl) (fun _ => rfl) rfl rfl
        (fun _ _ => Iff.rfl) (Or.inl ⟨row, hmem, rfl, rfl, rfl⟩), ?_, ?_⟩ <;> rfl
  -- the file is new: a row is inserted first, and then moves on
  | none =>
    have hpath := find?_path_eq_none.mp hfind
    have hnew := hid (by rw [hfind]; rfl)
    have hany : db.files.any (·.path == path) = false := by
      rw [List.any_eq_false]
      intro r hr
      simpa using fun heq : r.path = path => hpath (List.mem_map.mpr ⟨r, hr, heq⟩)
    simp only [hany, Bool.false_eq_true, if_false, List.find?_append, hfind, List.find?_singleton,
      beq_self_eq_true, Option.none_or, if_true] at h
    split at h
    · cases h
    · next hversion =>
      obtain rfl : 0 = parentVersion := not_not.mp hversion
      cases h
      have hmem : (⟨newId, path, 0, none, 0, false, 0⟩ : FileRow) ∈ db.files ++
          [⟨newId, path, 0, none, 0, false, 0⟩] := List.mem_append_right _ List.mem_cons_self
      refine ⟨_, moves_of_update ?_ ?_ hmem (fun _ => rfl) (fun _ => rfl) rfl rfl
        (fun r hr => ?_) (Or.inr ⟨rfl, hnew, hpath⟩), rfl, ?_⟩
      · -- the new id
        rw [List.map_append, List.map_singleton, List.nodup_append_comm]
        exact List.nodup_cons.mpr ⟨hnew, hkeyed.ids⟩
      · -- and the new path are not in the table
        rw [List.map_append, List.map_singleton, List.nodup_append_comm]
        exact List.nodup_cons.mpr ⟨hpath, hkeyed.paths⟩
      · -- the other rows are those of the table
        rw [List.mem_append, List.mem_singleton, or_iff_left]
        rintro rfl
        exact hr rfl
      · rfl

/-- A completed delete moves the row of its path. -/
theorem completeDelete_moves {db db' : TeamFiles} (hkeyed : db.Keyed) {path : Str}
    {parentVersion : Nat} (h : completeDelete db path parentVersion = .ok db') :
    ∃ row, Moves db db' path parentVersion row ∧ row.id = db.fileId path 0 ∧
      row.contentHash = none := by
  unfold completeDelete at h
  unfold TeamFiles.fileId
  cases hfind : db.files.find? (·.path == path) with
  | none => rw [hfind] at h; cases h
  | some row =>
    obtain ⟨hmem, rfl⟩ := of_find?_path hfind
    simp only [hfind] at h
    split at h
    · cases h
    · next hversion =>
      obtain rfl := not_not.mp hversion
      cases h
      refine ⟨_, moves_of_update hkeyed.ids hkeyed.paths hmem (fun _ => rfl) (fun _ => rfl) rfl rfl
        (fun _ _ => Iff.rfl) (Or.inl ⟨row, hmem, rfl, rfl, rfl⟩), ?_, ?_⟩ <;> rfl

/-! ## What a transaction commits -/

/-- The transaction moved a row and appended the version that it names. -/
structure Commits (s s' : TeamStore) (w : CompletedWrite) (row : FileRow) : Prop where
  moves : Moves s.team s'.team w.path w.parentVersion row
  seq : w.changeSeq = s'.team.ossChangeSeq
  version : w.version = w.parentVersion + 1
  hash : row.contentHash = w.contentHash
  versions : ∃ v, s'.versions = s.versions ++ [v] ∧ v.fileId = row.id ∧
    v.version = w.parentVersion + 1 ∧ v.parentVersion = w.parentVersion ∧
    v.contentHash = w.contentHash

/-- The sessions after one of them is completed. -/
def completeSession (sessions : List UploadSession) (sessionId : Nat) : List UploadSession :=
  sessions.map fun x => if x.id = sessionId then { x with status := .completed } else x

/-- What an upload commits, and the session that it completes. -/
theorem amuxcCompleteUpload_commits {s s' : TeamStore} {w : CompletedWrite} {sessionId now newId : Nat}
    {actorId : Str} (hkeyed : s.team.Keyed)
    (h : amuxcCompleteUpload s sessionId actorId now newId = .ok (s', w)) :
    (∃ row, Commits s s' w row) ∧
      ∃ session ∈ s.sessions, session.id = sessionId ∧ session.status = .pending ∧
        s'.sessions = completeSession s.sessions sessionId := by
  unfold amuxcCompleteUpload at h
  cases hfind : s.sessions.find? (·.id == sessionId) with
  -- no session of this id
  | none => rw [hfind] at h; cases h
  | some session =>
    simp only [hfind] at h
    split at h
    · cases h
    split at h
    · cases h
    next hstatus =>
    split at h
    · cases h
    split at h
    · cases h
    next hnew =>
    -- the id of a new row is not taken
    have hid : (s.team.files.find? (·.path == session.path)).isNone →
        newId ∉ s.team.files.map (·.id) := by
      intro hnone hmem
      obtain ⟨r, hr, rfl⟩ := List.mem_map.mp hmem
      exact hnew (Bool.and_eq_true_iff.mpr ⟨hnone, List.any_eq_true.mpr ⟨r, hr, by simp⟩⟩)
    split at h
    · cases h
    · next team hok =>
      cases h
      obtain ⟨row, hmoves, hrow, hhash⟩ := completeUpload_moves hkeyed hid hok
      exact ⟨⟨row, hmoves, rfl, rfl, hhash, _, rfl, hrow.symm, rfl, rfl, rfl⟩, session,
        List.mem_of_find?_eq_some hfind, by simpa using List.find?_some hfind,
        not_not.mp hstatus, rfl⟩

/-- What a delete commits. -/
theorem amuxcCompleteDelete_commits {s s' : TeamStore} {w : CompletedWrite} {path : Str}
    {parentVersion : Nat} {actorId : Str} (hkeyed : s.team.Keyed)
    (h : amuxcCompleteDelete s path parentVersion actorId = .ok (s', w)) :
    (∃ row, Commits s s' w row) ∧ s'.sessions = s.sessions := by
  unfold amuxcCompleteDelete at h
  split at h
  · cases h
  · next team hok =>
    cases h
    obtain ⟨row, hmoves, hrow, hhash⟩ := completeDelete_moves hkeyed hok
    exact ⟨⟨row, hmoves, rfl, rfl, hhash, _, rfl, hrow.symm, rfl, rfl, rfl⟩, rfl⟩

/-! ## Runs -/

/-- One client's drain of the manifest: what it asks for, where it stands and what it was given. -/
structure Drain where
  view : AclView
  afterSeq : Nat
  snapshotSeq : Nat
  cursor : Option Cursor := none
  items : List ManifestItem := []

/-- The `limit` of a query that does not send one. -/
def DEFAULT_LIMIT : Nat := 200

/-- The next page of the drain. -/
def Drain.page (d : Drain) (s : TeamStore) : ManifestPage :=
  manifestPage s.team d.view.denied d.afterSeq DEFAULT_LIMIT d.snapshotSeq d.cursor

/-- A write that was committed, with the session of an upload. -/
structure Committed where
  write : CompletedWrite
  sessionId : Option Nat

/-- The tables of a team, the writes in the order of their commits, and a drain that is under way. -/
structure History where
  store : TeamStore := {}
  writes : List Committed := []
  drain : Option Drain := none

/-- What can happen next. -/
inductive HistoryStep where
  | insertSession (session : UploadSession)
  | abandonExpired (now : Nat)
  | upload (sessionId : Nat) (actorId : Str) (now newId : Nat)
  | delete (path : Str) (parentVersion : Nat) (actorId : Str)
  /-- The first request of a drain reads the counter unless it sends a snapshot. -/
  | startDrain (view : AclView) (afterSeq : Nat) (clientSnapshotSeq : Option Nat)
  /-- The page query of the next request; the last page ends the drain. -/
  | page

/-- Commit a transaction, or roll it back. -/
def History.commit (h : History) (sessionId : Option Nat)
    (result : Except TransactionError (TeamStore × CompletedWrite)) : History :=
  match result with
  | .error _ => h
  | .ok (store, write) => { h with store, writes := h.writes ++ [{ write, sessionId }] }

/-- The runs of a team's writes and of one client's drains. -/
def historyMachine : Machine History HistoryStep where
  init := {}
  step h step :=
    match step with
    | .insertSession session => { h with store := insertSession h.store session }
    | .abandonExpired now => { h with store := abandonExpiredSessions h.store now }
    | .upload sessionId actorId now newId =>
      h.commit (some sessionId) (amuxcCompleteUpload h.store sessionId actorId now newId)
    | .delete path parentVersion actorId =>
      h.commit none (amuxcCompleteDelete h.store path parentVersion actorId)
    | .startDrain view afterSeq clientSnapshotSeq =>
      let d : Drain :=
        { view, afterSeq, snapshotSeq := snapshotSeq h.store.team clientSnapshotSeq }
      { h with drain := some d }
    | .page =>
      { h with drain := h.drain.bind fun d =>
          (d.page h.store).nextCursor.map fun cursor =>
            { d with cursor := some cursor, items := d.items ++ (d.page h.store).items } }

/-! ## The invariant -/

/-- The row is in the window of the drain, and its filter keeps it. -/
def Drain.Asks (d : Drain) (row : FileRow) : Prop :=
  d.afterSeq < row.changeSeq ∧ row.changeSeq ≤ d.snapshotSeq ∧
    manifestKeeps d.view.denied row.path = true

/-- Every row that the drain asks for is behind its cursor or was given. -/
structure Drain.Inv (d : Drain) (db : TeamFiles) : Prop where
  cursor : (d.cursor.getD firstCursor).seq ≤ db.ossChangeSeq
  given : ∀ row ∈ db.files, d.Asks row →
    behindCursor (d.cursor.getD firstCursor) row = true ∨ row.toItem ∈ d.items

/-- The versions of the file are a chain from 1 to the current one. -/
def Chained (versions : List VersionRow) (row : FileRow) : Prop :=
  (versions.filter fun v => v.fileId = row.id).map (fun v => (v.version, v.parentVersion)) =
    (List.range row.currentVersion).map fun k => (k + 1, k)

/-- What holds of a history. -/
structure History.Inv (h : History) : Prop where
  keyed : h.store.team.Keyed
  seqs : ∀ r ∈ h.store.team.files, r.changeSeq ≤ h.store.team.ossChangeSeq
  distinct : ∀ r ∈ h.store.team.files, ∀ r' ∈ h.store.team.files,
    r.changeSeq = r'.changeSeq → r = r'
  chain : ∀ r ∈ h.store.team.files, Chained h.store.versions r
  known : ∀ v ∈ h.store.versions, v.fileId ∈ h.store.team.files.map (·.id)
  recorded : h.store.versions.map (fun v => (v.version, v.parentVersion)) =
    h.writes.map fun c => (c.write.version, c.write.parentVersion)
  written : ∀ c ∈ h.writes, ∃ r ∈ h.store.team.files, r.path = c.write.path ∧
    c.write.parentVersion < r.currentVersion
  parents : (h.writes.map fun c => (c.write.path, c.write.parentVersion)).Nodup
  commits : (h.writes.map (·.write.changeSeq)).Pairwise (· < ·)
  bound : ∀ c ∈ h.writes, c.write.changeSeq ≤ h.store.team.ossChangeSeq
  sessionIds : (h.store.sessions.map (·.id)).Nodup
  used : ∀ c ∈ h.writes, ∀ id, c.sessionId = some id →
    ∃ x ∈ h.store.sessions, x.id = id ∧ x.status = .completed
  once : (h.writes.filterMap (·.sessionId)).Nodup
  drain : ∀ d, h.drain = some d → d.Inv h.store.team

theorem History.inv_init : History.Inv {} where
  keyed := ⟨List.nodup_nil, List.nodup_nil⟩
  seqs := fun _ h => absurd h List.not_mem_nil
  distinct := fun _ h => absurd h List.not_mem_nil
  chain := fun _ h => absurd h List.not_mem_nil
  known := fun _ h => absurd h List.not_mem_nil
  recorded := rfl
  written := fun _ h => absurd h List.not_mem_nil
  parents := List.nodup_nil
  commits := List.Pairwise.nil
  bound := fun _ h => absurd h List.not_mem_nil
  sessionIds := List.nodup_nil
  used := fun _ h => absurd h List.not_mem_nil
  once := List.nodup_nil
  drain := nofun

section

variable {db db' : TeamFiles} {path : Str} {parentVersion : Nat} {row : FileRow}

/-- The row that was moved, if there was one. -/
theorem Moves.old_of_id (h : Moves db db' path parentVersion row) (hkeyed : db.Keyed) {r : FileRow}
    (hr : r ∈ db.files) (hid : r.id = row.id) : r.path = path ∧ r.currentVersion = parentVersion := by
  obtain ⟨r', hr', hid', hpath, hversion⟩ | ⟨-, hnew, -⟩ := h.old
  · rw [List.inj_on_of_nodup_map hkeyed.ids hr hr' (hid.trans hid'.symm)]
    exact ⟨hpath, hversion⟩
  · exact absurd (List.mem_map.mpr ⟨r, hr, hid⟩) hnew

/-- Before the write the row of its path had the parent version. -/
theorem Moves.old_of_path (h : Moves db db' path parentVersion row) (hkeyed : db.Keyed) {r : FileRow}
    (hr : r ∈ db.files) (hpath : r.path = path) : r.currentVersion = parentVersion := by
  obtain ⟨r', hr', -, hpath', hversion⟩ | ⟨-, -, hnew⟩ := h.old
  · rw [List.inj_on_of_nodup_map hkeyed.paths hr hr' (hpath.trans hpath'.symm)]
    exact hversion
  · exact absurd (List.mem_map.mpr ⟨r, hr, hpath⟩) hnew

/-- A write keeps the drain's invariant: what it moves is behind every cursor. -/
theorem Moves.drain (h : Moves db db' path parentVersion row) {d : Drain} (hd : d.Inv db) :
    d.Inv db' where
  cursor := hd.cursor.trans (h.seq ▸ Nat.le_succ _)
  given r hr hasks := by
    rcases (h.mem r).mp hr with rfl | ⟨hr, -⟩
    · refine Or.inl ?_
      have hlt : (d.cursor.getD firstCursor).seq < r.changeSeq := by
        have := hd.cursor
        have := h.seq
        have := h.changeSeq
        omega
      simp [behindCursor, hlt]
    · exact hd.given r hr hasks

/-- A write appends to the chain of its file and leaves the others. -/
theorem Moves.chain (h : Moves db db' path parentVersion row) {versions : List VersionRow}
    {v : VersionRow} (hv : v.fileId = row.id)
    (hversion : v.version = parentVersion + 1) (hparent : v.parentVersion = parentVersion)
    (hknown : ∀ v ∈ versions, v.fileId ∈ db.files.map (·.id))
    (hchain : ∀ r ∈ db.files, Chained versions r) :
    ∀ r ∈ db'.files, Chained (versions ++ [v]) r := by
  intro r hr
  unfold Chained
  rw [List.filter_append, List.map_append]
  -- the row that was written: its versions so far, and the new one
  rcases (h.mem r).mp hr with rfl | ⟨hr, hne⟩
  · have hbefore : (versions.filter fun v => v.fileId = r.id).map
        (fun v => (v.version, v.parentVersion)) =
        (List.range parentVersion).map fun k => (k + 1, k) := by
      -- they count up to the parent version, or there are none
      obtain ⟨r', hr', hid, -, rfl⟩ | ⟨rfl, hnew, -⟩ := h.old
      · rw [← hid]
        exact hchain r' hr'
      · rw [List.filter_eq_nil_iff.mpr]
        · rfl
        · intro x hx
          simpa using fun heq : x.fileId = r.id => hnew (heq ▸ hknown x hx)
    rw [hbefore, List.filter_cons_of_pos (by simpa using hv), h.version, List.range_succ,
      List.map_append]
    simp [hversion, hparent]
  · -- a row that was not touched
    rw [List.filter_cons_of_neg (by simpa [hv] using Ne.symm hne), List.filter_nil, List.map_nil,
      List.append_nil]
    exact hchain r hr

end

/-- A transaction that commits keeps the invariant, if its session was not used. -/
theorem History.Inv.commit {h : History} (hinv : h.Inv) {store : TeamStore} {write : CompletedWrite}
    {row : FileRow} (hc : Commits h.store store write row) {sessionId : Option Nat}
    (hids : (store.sessions.map (·.id)).Nodup)
    (hkept : ∀ x ∈ h.store.sessions, x.status = .completed →
      ∃ y ∈ store.sessions, y.id = x.id ∧ y.status = .completed)
    (hnew : ∀ id, sessionId = some id →
      (∃ x ∈ store.sessions, x.id = id ∧ x.status = .completed) ∧
        ∀ c ∈ h.writes, c.sessionId ≠ some id) :
    History.Inv { h with store, writes := h.writes ++ [{ write, sessionId }] } := by
  obtain ⟨hmoves, hseq, hwversion, -, v, hversions, hv, hvversion, hvparent, -⟩ := hc
  have hkeyed := hinv.keyed
  refine ⟨⟨hmoves.ids, hmoves.paths⟩, ?_, ?_, ?_, ?_, ?_, ?_, ?_, ?_, ?_, hids, ?_, ?_, ?_⟩
  · -- no row is ahead of the counter
    intro r hr
    rcases (hmoves.mem r).mp hr with rfl | ⟨hr, -⟩
    · exact hmoves.changeSeq.le
    · exact (hinv.seqs r hr).trans (hmoves.seq ▸ Nat.le_succ _)
  · -- the counter value of the write is fresh
    have hfresh : ∀ r ∈ h.store.team.files, r.changeSeq ≠ row.changeSeq := by
      intro r hr
      have := hinv.seqs r hr
      have := hmoves.changeSeq
      have := hmoves.seq
      omega
    intro r hr r' hr' heq
    rcases (hmoves.mem r).mp hr with rfl | ⟨hr, -⟩ <;>
      rcases (hmoves.mem r').mp hr' with rfl | ⟨hr', -⟩
    · rfl
    · exact absurd heq.symm (hfresh r' hr')
    · exact absurd heq (hfresh r hr)
    · exact hinv.distinct r hr r' hr' heq
  · -- each row is the end of its chain
    rw [hversions]
    exact hmoves.chain hv hvversion hvparent hinv.known hinv.chain
  · -- every version belongs to a row
    intro x hx
    have hrow : row.id ∈ store.team.files.map (·.id) :=
      List.mem_map.mpr ⟨row, (hmoves.mem row).mpr (Or.inl rfl), rfl⟩
    rw [hversions] at hx
    rcases List.mem_append.mp hx with hx | hx
    · obtain ⟨r, hr, hid⟩ := List.mem_map.mp (hinv.known x hx)
      by_cases heq : r.id = row.id
      · rw [← hid, heq]
        exact hrow
      · exact List.mem_map.mpr ⟨r, (hmoves.mem r).mpr (Or.inr ⟨hr, heq⟩), hid⟩
    · rw [List.mem_singleton.mp hx, hv]
      exact hrow
  · -- the versions record the writes
    rw [hversions, List.map_append, List.map_append, hinv.recorded]
    simp [hvversion, hvparent, hwversion]
  · -- what was written is behind its row
    intro c hcm
    rcases List.mem_append.mp hcm with hcm | hcm
    · obtain ⟨r, hr, hpath, hlt⟩ := hinv.written c hcm
      by_cases heq : r.id = row.id
      · obtain ⟨hold, hversion⟩ := hmoves.old_of_id hkeyed hr heq
        refine ⟨row, (hmoves.mem row).mpr (Or.inl rfl), ?_, ?_⟩
        · rw [hmoves.path_eq, ← hold, hpath]
        · rw [hmoves.version]
          omega
      · exact ⟨r, (hmoves.mem r).mpr (Or.inr ⟨hr, heq⟩), hpath, hlt⟩
    · rw [List.mem_singleton.mp hcm]
      exact ⟨row, (hmoves.mem row).mpr (Or.inl rfl), hmoves.path_eq,
        hmoves.version ▸ Nat.lt_succ_self _⟩
  · -- no two writes have the same parent
    rw [List.map_append, List.map_singleton, List.nodup_append_comm]
    refine List.nodup_cons.mpr ⟨fun hmem => ?_, hinv.parents⟩
    obtain ⟨c, hcm, heq⟩ := List.mem_map.mp hmem
    obtain ⟨hpath, hparent⟩ := Prod.mk.inj heq
    dsimp only at hpath hparent
    obtain ⟨r, hr, hrpath, hlt⟩ := hinv.written c hcm
    have := hmoves.old_of_path hkeyed hr (hrpath.trans hpath)
    omega
  · -- the commits are in the order of the counter
    rw [List.map_append, List.map_singleton, List.pairwise_append]
    refine ⟨hinv.commits, List.pairwise_singleton _ _, fun n hn m hm => ?_⟩
    obtain ⟨c, hcm, rfl⟩ := List.mem_map.mp hn
    rw [List.mem_singleton.mp hm]
    have := hinv.bound c hcm
    have := hmoves.seq
    dsimp only
    omega
  · intro c hcm
    rcases List.mem_append.mp hcm with hcm | hcm
    · exact (hinv.bound c hcm).trans (hmoves.seq ▸ Nat.le_succ _)
    · rw [List.mem_singleton.mp hcm]
      exact hseq.le
  · -- the sessions that were used are completed
    intro c hcm id hid
    rcases List.mem_append.mp hcm with hcm | hcm
    · obtain ⟨x, hx, rfl, hstatus⟩ := hinv.used c hcm id hid
      exact hkept x hx hstatus
    · rw [List.mem_singleton.mp hcm] at hid
      exact (hnew id hid).1
  · -- no session is used twice
    rw [List.filterMap_append, List.nodup_append_comm]
    cases sessionId with
    | none => simpa using hinv.once
    | some id =>
      refine List.nodup_cons.mpr ⟨fun hmem => ?_, hinv.once⟩
      obtain ⟨c, hcm, hid⟩ := List.mem_filterMap.mp hmem
      exact (hnew id rfl).2 c hcm hid
  · -- the drain in progress goes on
    exact fun d hd => hmoves.drain (hinv.drain d hd)

/-! ## The page -/

/-- The order of the page query. -/
private abbrev RowLe (a b : FileRow) : Prop := rowBefore a b = true

private theorem rowLe_iff {a b : FileRow} :
    RowLe a b ↔ a.changeSeq < b.changeSeq ∨ (a.changeSeq = b.changeSeq ∧ a.id ≤ b.id) := by
  simp [RowLe, rowBefore]

private instance : Std.Total RowLe where
  total a b := by
    rw [rowLe_iff, rowLe_iff]
    omega

private instance : IsTrans FileRow RowLe where
  trans a b c hab hbc := by
    rw [rowLe_iff] at *
    omega

/-- The rows of the page query are those that the drain asks for behind the cursor. -/
theorem mem_manifestRows {db : TeamFiles} {denied : List Str} {afterSeq snapshotSeq : Nat}
    {cursor : Cursor} {row : FileRow} :
    row ∈ manifestRows db denied afterSeq snapshotSeq cursor ↔
      row ∈ db.files ∧ afterSeq < row.changeSeq ∧ row.changeSeq ≤ snapshotSeq ∧
        behindCursor cursor row = true ∧ manifestKeeps denied row.path = true := by
  unfold manifestRows
  rw [List.mem_insertionSort, List.mem_filter]
  simp only [Bool.and_eq_true, decide_eq_true_eq, and_assoc]

/-- They are in the order of `change_seq` and id. -/
theorem pairwise_manifestRows (db : TeamFiles) (denied : List Str) (afterSeq snapshotSeq : Nat)
    (cursor : Cursor) :
    (manifestRows db denied afterSeq snapshotSeq cursor).Pairwise fun a b =>
      a.changeSeq < b.changeSeq ∨ (a.changeSeq = b.changeSeq ∧ a.id ≤ b.id) :=
  (List.pairwise_insertionSort RowLe _).imp fun {_ _} => rowLe_iff.mp

/-- One row more than the limit tells that another page follows; the page holds the first rows, and
    the cursor stands on the last of them. -/
private theorem page_split (rows : List FileRow) (lim : Nat) (hlim : 0 < lim)
    (hdistinct : ∀ r ∈ rows, ∀ r' ∈ rows, r.changeSeq = r'.changeSeq → r = r') :
    let taken := rows.take (lim + 1)
    let shown := if lim < taken.length then taken.take lim else taken
    let next := if lim < taken.length then
        (shown.map FileRow.toItem).getLast?.bind fun last =>
          (taken.find? fun r => r.changeSeq == last.changeSeq && r.path == last.path).map fun r =>
            ({ seq := last.changeSeq, id := r.id } : Cursor)
      else none
    (next = none → shown = rows) ∧
      ∀ cursor, next = some cursor → ∃ pre last post, rows = pre ++ last :: post ∧
        shown = pre ++ [last] ∧ cursor = { seq := last.changeSeq, id := last.id } := by
  intro taken shown next
  -- there are more rows than the page shows
  by_cases hlen : lim < taken.length
  · have hrows : lim < rows.length := by
      simp only [taken, List.length_take] at hlen
      omega
    have hshown : shown = rows.take lim := by
      simp only [shown, taken, if_pos hlen, List.take_take]
      congr 1
      omega
    -- the last row of the page
    obtain ⟨pre, last, hpre⟩ : ∃ pre last, rows.take lim = pre ++ [last] := by
      have hne : rows.take lim ≠ [] := by
        intro hnil
        have := congrArg List.length hnil
        rw [List.length_take, List.length_nil] at this
        omega
      exact ⟨_, _, (List.dropLast_append_getLast hne).symm⟩
    have hlast : last ∈ rows := List.mem_of_mem_take (hpre ▸ List.mem_append_right _ List.mem_cons_self)
    have htaken : last ∈ taken := by
      refine List.take_subset_take_left rows (Nat.le_succ lim) ?_
      rw [hpre]
      exact List.mem_append_right _ List.mem_cons_self
    have hfind : taken.find? (fun r => r.changeSeq == last.changeSeq && r.path == last.path) =
        some last := by
      obtain ⟨r, hr⟩ : ∃ r, taken.find?
          (fun r => r.changeSeq == last.changeSeq && r.path == last.path) = some r := by
        rw [← Option.isSome_iff_exists, List.find?_isSome]
        exact ⟨last, htaken, by simp⟩
      have hseq := List.find?_some hr
      simp only [Bool.and_eq_true, beq_iff_eq] at hseq
      -- the row that the cursor is read from is the last one of the page
      rw [hr, hdistinct r (List.mem_of_mem_take (List.mem_of_find?_eq_some hr)) last hlast hseq.1]
    have hnext : next = some { seq := last.changeSeq, id := last.id } := by
      simp only [next, if_pos hlen, hshown, hpre, List.map_append, List.map_singleton,
        List.getLast?_append, List.getLast?_singleton, Option.some_or, Option.bind_some,
        FileRow.toItem, hfind, Option.map_some]
    refine ⟨fun hnone => (Option.some_ne_none _ (hnext.symm.trans hnone)).elim, fun cursor hcursor => ?_⟩
    refine ⟨pre, last, rows.drop lim, ?_, hshown.trans hpre, Option.some.inj (hcursor.symm.trans hnext)⟩
    rw [List.append_cons, ← hpre, List.take_append_drop]
  · -- the page shows all rows
    refine ⟨fun _ => ?_, fun cursor hcursor => ?_⟩
    · simp only [shown, if_neg hlen, taken]
      refine List.take_of_length_le ?_
      by_contra hgt
      refine hlen ?_
      simp only [taken, List.length_take]
      omega
    · simp only [next, if_neg hlen, reduceCtorEq] at hcursor

/-- A page keeps the drain's invariant, and the last one leaves nothing out. -/
theorem Drain.Inv.page {d : Drain} {s : TeamStore} (hd : d.Inv s.team)
    (hseqs : ∀ r ∈ s.team.files, r.changeSeq ≤ s.team.ossChangeSeq)
    (hdistinct : ∀ r ∈ s.team.files, ∀ r' ∈ s.team.files, r.changeSeq = r'.changeSeq → r = r') :
    ((d.page s).nextCursor = none →
      ∀ row ∈ s.team.files, d.Asks row → row.toItem ∈ d.items ++ (d.page s).items) ∧
    ∀ cursor, (d.page s).nextCursor = some cursor →
      Drain.Inv { d with cursor := some cursor, items := d.items ++ (d.page s).items } s.team := by
  have hmem : ∀ r, r ∈ manifestRows s.team d.view.denied d.afterSeq d.snapshotSeq
      (d.cursor.getD firstCursor) → r ∈ s.team.files := fun r hr => (mem_manifestRows.mp hr).1
  obtain ⟨hlast, hmore⟩ := page_split (manifestRows s.team d.view.denied d.afterSeq d.snapshotSeq
    (d.cursor.getD firstCursor)) (pageLimit DEFAULT_LIMIT) (by decide)
    (fun r hr r' hr' => hdistinct r (hmem r hr) r' (hmem r' hr'))
  -- a row that the drain asks for was given, or the query selects it
  have hselected : ∀ row ∈ s.team.files, d.Asks row → row.toItem ∈ d.items ∨
      row ∈ manifestRows s.team d.view.denied d.afterSeq d.snapshotSeq
        (d.cursor.getD firstCursor) := by
    intro row hrow hasks
    refine (hd.given row hrow hasks).symm.imp_right fun hbehind => ?_
    exact mem_manifestRows.mpr ⟨hrow, hasks.1, hasks.2.1, hbehind, hasks.2.2⟩
  constructor
  · -- without a cursor the page was the last one
    intro hnone row hrow hasks
    refine List.mem_append.mpr ((hselected row hrow hasks).imp_right fun hsel => ?_)
    exact List.mem_map_of_mem ((hlast hnone).symm ▸ hsel)
  · intro cursor hcursor
    obtain ⟨pre, last, post, hrows, hshown, rfl⟩ := hmore cursor hcursor
    have hlastMem : last ∈ manifestRows s.team d.view.denied d.afterSeq d.snapshotSeq
        (d.cursor.getD firstCursor) := by
      rw [hrows]
      exact List.mem_append_right _ List.mem_cons_self
    refine ⟨hseqs last (hmem last hlastMem), fun row hrow hasks => ?_⟩
    -- a row is on the pages so far, or this page or a later one has it
    rcases hselected row hrow hasks with hgiven | hsel
    · exact Or.inr (List.mem_append_left _ hgiven)
    · have hsorted := pairwise_manifestRows s.team d.view.denied d.afterSeq d.snapshotSeq
        (d.cursor.getD firstCursor)
      rw [hrows] at hsel hsorted
      rw [List.append_cons] at hsel
      rcases List.mem_append.mp hsel with hsel | hsel
      · refine Or.inr (List.mem_append_right _ ?_)
        exact List.mem_map_of_mem (hshown.symm ▸ hsel)
      · -- behind the last row of the page
        by_cases heq : row = last
        · refine Or.inr (List.mem_append_right _ (List.mem_map_of_mem (hshown.symm ▸ ?_)))
          rw [heq]
          exact List.mem_append_right _ List.mem_cons_self
        · refine Or.inl ?_
          have hle := (List.pairwise_cons.mp (List.pairwise_append.mp hsorted).2.1).1 row hsel
          have hne : last.changeSeq ≠ row.changeSeq := fun hseq =>
            heq (hdistinct row hrow last (hmem last hlastMem) hseq.symm)
          have hlt : last.changeSeq < row.changeSeq := by omega
          simp [behindCursor, hlt]

/-! ## Steps and runs -/

/-- Completing a session keeps the ids, and every completed session. -/
private theorem completeSession_spec (sessions : List UploadSession) (sessionId : Nat) :
    (completeSession sessions sessionId).map (·.id) = sessions.map (·.id) ∧
      (∀ x ∈ sessions, x.status = .completed →
        ∃ y ∈ completeSession sessions sessionId, y.id = x.id ∧ y.status = .completed) ∧
      ∀ x ∈ sessions, x.id = sessionId →
        ∃ y ∈ completeSession sessions sessionId, y.id = sessionId ∧ y.status = .completed := by
  unfold completeSession
  refine ⟨?_, fun x hx hstatus => ?_, fun x hx hid => ?_⟩
  · rw [List.map_map]
    refine List.map_congr_left fun x _ => ?_
    rw [Function.comp_apply]
    split <;> rfl
  · refine ⟨_, List.mem_map_of_mem hx, ?_⟩
    split <;> exact ⟨rfl, by first | rfl | exact hstatus⟩
  · exact ⟨_, List.mem_map_of_mem hx, by rw [if_pos hid]; exact ⟨hid, rfl⟩⟩

/-- Every step keeps the invariant. -/
theorem History.inv_step (h : History) (step : HistoryStep) (hinv : h.Inv) :
    (historyMachine.step h step).Inv := by
  cases step with
  | insertSession session =>
    simp only [historyMachine, insertSession]
    split
    · exact hinv
    · -- a new session has a new id
      next hfresh =>
      refine { hinv with sessionIds := ?_, used := fun c hc id hid => ?_ }
      · rw [List.map_append, List.map_singleton, List.nodup_append_comm]
        refine List.nodup_cons.mpr ⟨fun hmem => hfresh ?_, hinv.sessionIds⟩
        obtain ⟨x, hx, hid⟩ := List.mem_map.mp hmem
        exact List.any_eq_true.mpr ⟨x, hx, beq_iff_eq.mpr hid⟩
      · obtain ⟨x, hx, hxid⟩ := hinv.used c hc id hid
        exact ⟨x, List.mem_append_left _ hx, hxid⟩
  | abandonExpired now =>
    refine { hinv with sessionIds := ?_, used := fun c hc id hid => ?_ }
    · -- abandoning keeps the ids, and
      refine List.Nodup.sublist (List.filter_sublist.map _) ?_
      rw [List.map_map]
      refine (List.map_congr_left fun x _ => ?_) ▸ hinv.sessionIds
      rw [Function.comp_apply]
      split <;> rfl
    · -- the completed sessions
      obtain ⟨x, hx, rfl, hstatus⟩ := hinv.used c hc id hid
      refine ⟨x, List.mem_filter.mpr ⟨List.mem_map.mpr ⟨x, hx, ?_⟩, ?_⟩, rfl, hstatus⟩
      · rw [if_neg]
        simp [hstatus]
      · simp [hstatus]
  | upload sessionId actorId now newId =>
    simp only [historyMachine]
    generalize hresult : amuxcCompleteUpload h.store sessionId actorId now newId = result
    -- a refused upload changes nothing
    cases result with
    | error e => exact hinv
    | ok committed =>
      obtain ⟨store, write⟩ := committed
      obtain ⟨⟨row, hc⟩, session, hsession, rfl, hpending, hsessions⟩ :=
        amuxcCompleteUpload_commits hinv.keyed hresult
      -- a completed upload is a commit under its session
      obtain ⟨hids, hkept, hdone⟩ := completeSession_spec h.store.sessions session.id
      rw [← hsessions] at hids hkept hdone
      refine hinv.commit hc (hids ▸ hinv.sessionIds) hkept ?_
      rintro id ⟨⟩
      refine ⟨hdone session hsession rfl, fun c hcm hid => ?_⟩
      -- the session of an earlier write is completed, this one was pending
      obtain ⟨x, hx, hxid, hstatus⟩ := hinv.used c hcm session.id hid
      rw [List.inj_on_of_nodup_map hinv.sessionIds hx hsession hxid, hpending] at hstatus
      cases hstatus
  | delete path parentVersion actorId =>
    simp only [historyMachine]
    generalize hresult : amuxcCompleteDelete h.store path parentVersion actorId = result
    cases result with
    | error e => exact hinv
    | ok committed =>
      obtain ⟨store, write⟩ := committed
      -- a deletion is a commit without one
      obtain ⟨⟨row, hc⟩, hsessions⟩ := amuxcCompleteDelete_commits hinv.keyed hresult
      exact hinv.commit hc (hsessions ▸ hinv.sessionIds)
        (fun x hx hstatus => ⟨x, hsessions ▸ hx, rfl, hstatus⟩) nofun
  | startDrain view afterSeq clientSnapshotSeq =>
    refine { hinv with drain := ?_ }
    rintro d ⟨⟩
    -- a drain starts before every row
    refine ⟨Nat.zero_le _, fun row hrow hasks => Or.inl ?_⟩
    have hpos : 0 < row.changeSeq := Nat.zero_lt_of_lt hasks.1
    simp [behindCursor, firstCursor, hpos]
  | page =>
    refine { hinv with drain := fun d' hd' => ?_ }
    obtain ⟨d, hd, hnext⟩ := Option.bind_eq_some_iff.mp hd'
    obtain ⟨cursor, hcursor, rfl⟩ := Option.map_eq_some_iff.mp hnext
    -- a page moves the cursor on
    exact ((hinv.drain d hd).page hinv.seqs hinv.distinct).2 cursor hcursor

theorem History.inv_run (steps : List HistoryStep) : (historyMachine.run steps).Inv :=
  Machine.invariant_runFrom (G := fun _ _ => True) (fun h step hinv _ => inv_step h step hinv)
    History.inv_init (Machine.steps_true _ _ _)

/-! ## The history and the drain -/

/-- The caller may see the path. -/
def Drain.Sees (d : Drain) (path : Str) : Prop :=
  validateSyncPath path = .ok ∧ isDenied path d.view = false

/-- The drain ends with its next page. -/
def History.Drained (h : History) (d : Drain) : Prop :=
  h.drain = some d ∧ (d.page h.store).nextCursor = none

/-- The row was returned as it is now, in the window of the drain. -/
def Drain.Returned (d : Drain) (s : TeamStore) (row : FileRow) : Prop :=
  d.afterSeq < row.changeSeq → row.changeSeq ≤ d.snapshotSeq →
    row.toItem ∈ d.items ++ (d.page s).items

/-- After every run the history is linear, and a drain that ends has returned every row in its
    window that its filter keeps; these are all that the caller may see if every denied prefix is
    `Covered`. -/
theorem history_linear_drain_complete (steps : List HistoryStep) :
    let h := historyMachine.run steps
    (∀ row ∈ h.store.team.files, Chained h.store.versions row) ∧
    (h.writes.map fun c => (c.write.path, c.write.parentVersion)).Nodup ∧
    (h.store.versions.map (fun v => (v.version, v.parentVersion)) =
        h.writes.map (fun c => (c.write.version, c.write.parentVersion)) ∧
      (h.writes.filterMap (·.sessionId)).Nodup) ∧
    ((h.writes.map (·.write.changeSeq)).Pairwise (· < ·) ∧
      (∀ c ∈ h.writes, c.write.changeSeq ≤ h.store.team.ossChangeSeq) ∧
      (∀ row ∈ h.store.team.files, row.changeSeq ≤ h.store.team.ossChangeSeq) ∧
      (h.store.team.files.map (·.changeSeq)).Nodup) ∧
    (∀ sessionId actorId now newId e,
      amuxcCompleteUpload h.store sessionId actorId now newId = .error e →
        historyMachine.step h (.upload sessionId actorId now newId) = h) ∧
    (∀ path parentVersion actorId e,
      amuxcCompleteDelete h.store path parentVersion actorId = .error e →
        historyMachine.step h (.delete path parentVersion actorId) = h) ∧
    ∀ d, h.Drained d →
      (∀ row ∈ h.store.team.files, manifestKeeps d.view.denied row.path = true →
        d.Returned h.store row) ∧
      ((∀ q ∈ d.view.denied, Covered d.view.denied q) →
        ∀ row ∈ h.store.team.files, d.Sees row.path → d.Returned h.store row) := by
  intro h
  have hinv : h.Inv := History.inv_run steps
  have hseqs : (h.store.team.files.map (·.changeSeq)).Nodup :=
    hinv.keyed.ids.of_map.map_on fun r hr r' hr' heq => hinv.distinct r hr r' hr' heq
  refine ⟨hinv.chain, hinv.parents, ⟨hinv.recorded, hinv.once⟩,
    ⟨hinv.commits, hinv.bound, hinv.seqs, hseqs⟩, ?_, ?_, ?_⟩
  · intro sessionId actorId now newId e herror
    simp only [historyMachine, herror, History.commit]
  · intro path parentVersion actorId e herror
    simp only [historyMachine, herror, History.commit]
  · rintro d ⟨hd, hlast⟩
    have hkept : ∀ row ∈ h.store.team.files, manifestKeeps d.view.denied row.path = true →
        d.Returned h.store row := fun row hrow hkeeps hafter hbefore =>
      ((hinv.drain d hd).page hinv.seqs hinv.distinct).1 hlast row hrow ⟨hafter, hbefore, hkeeps⟩
    refine ⟨hkept, fun hcov row hrow hsees => hkept row hrow ?_⟩
    -- what the filter hides is denied
    by_contra hhides
    have hdenied := isDenied_of_manifestKeeps_eq_false hcov hsees.1 (Bool.eq_false_iff.mpr hhides)
    exact Bool.false_ne_true (hsees.2.symm.trans hdenied)

/-- A member uploads `knowledge/hr-data/plan.md`, and a caller without access to
    `knowledge/hr_data/` drains the manifest. -/
def hrDataHistory : List HistoryStep :=
  [.insertSession { id := 1, actorId := "alice".toList, path := "knowledge/hr-data/plan.md".toList
                    parentVersion := 0, contentHash := "h1".toList, size := 5, expiresAt := 100 },
    .upload 1 "alice".toList 10 7, .startDrain hrDataView 0 none]

/-- The drain ends, and the uploaded file, which the caller may see, is not in it. -/
theorem drain_skips_seen_path :
    ¬ ∀ steps d, (historyMachine.run steps).Drained d →
      ∀ row ∈ (historyMachine.run steps).store.team.files, d.Sees row.path →
        d.Returned (historyMachine.run steps).store row := by
  intro hall
  have hrun := hall hrDataHistory { view := hrDataView, afterSeq := 0, snapshotSeq := 1 }
    ⟨rfl, by decide +kernel⟩
    { id := 7, path := "knowledge/hr-data/plan.md".toList, currentVersion := 1
      contentHash := some "h1".toList, size := 5, deleted := false, changeSeq := 1 }
    (by decide +kernel) ⟨by decide +kernel, by decide +kernel⟩ (by decide) (by decide)
  exact absurd hrun (by decide +kernel)

end TeamClu.Fc
