import Mathlib.Data.List.Dedup
import TeamClu.Native.BlobAccess
import TeamClu.Spec.FileHistory

/-!
# Who can download a blob

Access to a blob is decided by the paths that point at its hash, and a completed upload makes a path
point at a hash.  Preparing an upload of a verified blob asks for no bytes, and a completion compares
sizes only, so an actor who knows a hash and a size can make a path of his own point at it.

`downloadable_iff` says what a download asks for in terms of the completions so far: one of them
made a path point at the hash that the caller may see.  Downloads are justified in every state of a
run exactly if each of its completions is by an actor who had put the bytes or to whom some path of
the hash was open (`downloads_justified_iff`).
-/

namespace TeamClu.Fc

/-! ## The machine -/

/-- A completion made the path point at the hash; the last two fields tell of the actor at that
    moment whether he had put the bytes, and whether he could download them. -/
structure Pointed where
  actorId : Str
  path : Str
  hash : Str
  hadPut : Bool
  couldDownload : Bool
  deriving DecidableEq

/-- The server, with what happened so far. -/
structure BlobState where
  server : SyncServer := {}
  /-- Who put which bytes at which key. -/
  puts : List (Str × Str × Bytes) := []
  pointed : List Pointed := []

/-- The answer holds a URL. -/
def DownloadResponse.isOk : DownloadResponse → Bool
  | .ok .. => true
  | _ => false

/-- What the members of a team send. -/
inductive BlobStep where
  | prepare (actorId : Str) (body : PrepareBody) (env : PrepareEnv)
  | put (actorId ossKey : Str) (bytes : Bytes)
  | complete (actorId : Str) (uploadSessionId now newId : Nat)
  | delete (actorId path : Str) (parentVersion : Nat)
  | abandonExpired (now : Nat)
  | manifest (actorId : Str) (afterSeq limit snapshotSeq : Nat) (cursor : Option Cursor)
  | versions (actorId path : Str)
  | download (actorId contentHash : Str)

section

variable (teamId : Str) (views : Str → AclView) (sha256 : Bytes → Str)

/-- The actor put the bytes of the hash into storage. -/
def BlobState.HadPut (s : BlobState) (actorId hash : Str) : Prop :=
  ∃ p ∈ s.puts, p.1 = actorId ∧ p.2.1 = ossKeyForHash teamId hash ∧ sha256 p.2.2 = hash

instance (s : BlobState) (actorId hash : Str) : Decidable (s.HadPut teamId sha256 actorId hash) :=
  inferInstanceAs (Decidable (∃ p ∈ s.puts, _))

/-- A download of the hash by the actor returns a URL. -/
def BlobState.Downloadable (s : BlobState) (actorId hash : Str) : Prop :=
  (handleSyncDownload teamId (views actorId) hash s.server).isOk = true

instance (s : BlobState) (actorId hash : Str) :
    Decidable (s.Downloadable teamId views actorId hash) :=
  inferInstanceAs (Decidable (_ = true))

/-- A completion, and the note of what it made point at the hash. -/
def BlobState.complete (s : BlobState) (actorId : Str) (uploadSessionId now newId : Nat) :
    BlobState :=
  let (server, response) := handleSyncUploadComplete teamId actorId uploadSessionId now newId s.server
  match response with
  | .ok { path, contentHash := some hash, .. } =>
    { s with
      server
      pointed := s.pointed ++
        [{ actorId, path, hash, hadPut := s.HadPut teamId sha256 actorId hash
           couldDownload := s.Downloadable teamId views actorId hash }] }
  | _ => { s with server }

/-- The runs of a team whose rules stay as they are; `sha256` is the hash of contents. -/
def blobMachine : Machine BlobState BlobStep where
  init := {}
  step s step :=
    match step with
    | .prepare actorId body env =>
      { s with server := (handleSyncUploadPrepare teamId actorId (views actorId) body env s.server).1 }
    | .put actorId ossKey bytes =>
      if s.server.uploadUrls.contains (actorId, ossKey) then
        { s with server := s.server.putObject actorId ossKey bytes
                 puts := s.puts ++ [(actorId, ossKey, bytes)] }
      else s
    | .complete actorId uploadSessionId now newId =>
      s.complete teamId views sha256 actorId uploadSessionId now newId
    | .delete actorId path parentVersion =>
      { s with server := (handleSyncDelete actorId (views actorId) path parentVersion s.server).1 }
    | .abandonExpired now =>
      { s with server := { s.server with store := abandonExpiredSessions s.server.store now } }
    -- these only read
    | .manifest .. | .versions .. | .download .. => s

/-! ## The condition and the law -/

/-- Some path that points at the hash is open to the actor. -/
def BlobState.Reads (s : BlobState) (actorId hash : Str) : Prop :=
  ∃ path ∈ pathsForContentHash s.server.store hash, isDenied path (views actorId) = false

instance (s : BlobState) (actorId hash : Str) : Decidable (s.Reads views actorId hash) :=
  inferInstanceAs (Decidable (∃ path ∈ pathsForContentHash s.server.store hash, _))

/-- A completion that succeeds is by an actor who had put the bytes, or who could read them. -/
def CompletesOwn (s : BlobState) : BlobStep → Prop
  | .complete actorId uploadSessionId now newId =>
    match (handleSyncUploadComplete teamId actorId uploadSessionId now newId s.server).2 with
    | .ok { contentHash := some hash, .. } =>
      s.HadPut teamId sha256 actorId hash ∨ s.Reads views actorId hash
    | _ => True
  | _ => True

/-- A download returns a URL only if some path that its caller may see was made to point at the hash
    by an actor who had put the bytes or could download them. -/
def BlobState.Justified (s : BlobState) : Prop :=
  ∀ actorId hash, s.Downloadable teamId views actorId hash →
    ∃ e ∈ s.pointed, e.hash = hash ∧ isDenied e.path (views actorId) = false ∧
      (e.hadPut = true ∨ e.couldDownload = true)

end

/-! ## Paths of a hash -/

/-- What the tables keep so that the versions alone tell the paths of a hash. -/
structure TeamStore.Tracked (s : TeamStore) : Prop where
  keyed : s.team.Keyed
  known : ∀ v ∈ s.versions, v.fileId ∈ s.team.files.map (·.id)
  current : ∀ r ∈ s.team.files, ∀ hash, r.contentHash = some hash →
    ∃ v ∈ s.versions, v.fileId = r.id ∧ v.contentHash = some hash

/-- The two queries of `pathsForContentHash`. -/
private theorem mem_pathsForContentHash {s : TeamStore} {hash path : Str} :
    path ∈ pathsForContentHash s hash ↔
      (∃ r ∈ s.team.files, r.contentHash = some hash ∧ r.path = path) ∨
        ∃ r ∈ s.team.files, (∃ v ∈ s.versions, v.contentHash = some hash ∧ v.fileId = r.id) ∧
          r.path = path := by
  simp only [pathsForContentHash, List.mem_dedup, List.mem_append, List.mem_map, List.mem_filter,
    beq_iff_eq, List.contains_iff_mem, and_assoc]

/-- The current pointers add nothing to the versions. -/
theorem TeamStore.Tracked.mem_paths {s : TeamStore} (hs : s.Tracked) {hash path : Str} :
    path ∈ pathsForContentHash s hash ↔
      ∃ r ∈ s.team.files, (∃ v ∈ s.versions, v.contentHash = some hash ∧ v.fileId = r.id) ∧
        r.path = path := by
  rw [mem_pathsForContentHash, or_iff_right_of_imp]
  rintro ⟨r, hr, hhash, hpath⟩
  obtain ⟨v, hv, hid, hvhash⟩ := hs.current r hr hash hhash
  exact ⟨r, hr, ⟨v, hv, hvhash, hid⟩, hpath⟩

section

variable {s s' : TeamStore} {w : CompletedWrite} {row : FileRow}

/-- The row of a path keeps its id and its path when it moves. -/
private theorem Commits.row_of_id (h : Commits s s' w row) (hkeyed : s.team.Keyed) {r : FileRow}
    (hr : r ∈ s.team.files) : ∃ r' ∈ s'.team.files, r'.id = r.id ∧ r'.path = r.path := by
  by_cases hid : r.id = row.id
  · refine ⟨row, (h.moves.mem row).mpr (Or.inl rfl), hid.symm, ?_⟩
    rw [h.moves.path_eq, (h.moves.old_of_id hkeyed hr hid).1]
  · exact ⟨r, (h.moves.mem r).mpr (Or.inr ⟨hr, hid⟩), rfl, rfl⟩

/-- A commit keeps the tables tracked. -/
theorem Commits.tracked (h : Commits s s' w row) (hs : s.Tracked) : s'.Tracked := by
  obtain ⟨v, hversions, hv, -, -, hvhash⟩ := h.versions
  refine ⟨⟨h.moves.ids, h.moves.paths⟩, fun x hx => ?_, fun r hr hash hhash => ?_⟩
  · rw [hversions] at hx
    rcases List.mem_append.mp hx with hx | hx
    · obtain ⟨r, hr, hid⟩ := List.mem_map.mp (hs.known x hx)
      obtain ⟨r', hr', hid', -⟩ := h.row_of_id hs.keyed hr
      exact List.mem_map.mpr ⟨r', hr', hid'.trans hid⟩
    · rw [List.mem_singleton.mp hx, hv]
      exact List.mem_map.mpr ⟨row, (h.moves.mem row).mpr (Or.inl rfl), rfl⟩
  · rw [hversions]
    rcases (h.moves.mem r).mp hr with rfl | ⟨hr, -⟩
    · exact ⟨v, List.mem_append_right _ List.mem_cons_self, hv, by rw [hvhash, ← h.hash, hhash]⟩
    · obtain ⟨x, hx, hid, hxhash⟩ := hs.current r hr hash hhash
      exact ⟨x, List.mem_append_left _ hx, hid, hxhash⟩

/-- A commit makes its own path point at its hash, and no other. -/
theorem Commits.mem_paths (h : Commits s s' w row) (hs : s.Tracked) {hash path : Str} :
    path ∈ pathsForContentHash s' hash ↔
      path ∈ pathsForContentHash s hash ∨ (w.contentHash = some hash ∧ w.path = path) := by
  obtain ⟨v, hversions, hv, -, -, hvhash⟩ := h.versions
  rw [(h.tracked hs).mem_paths, hs.mem_paths, hversions]
  constructor
  · rintro ⟨r, hr, ⟨x, hx, hxhash, hid⟩, hpath⟩
    rcases List.mem_append.mp hx with hx | hx
    · -- an old version of an old row
      -- an old version: its row was there before the commit
      obtain ⟨r', hr', hid'⟩ := List.mem_map.mp (hs.known x hx)
      refine Or.inl ⟨r', hr', ⟨x, hx, hxhash, hid'.symm⟩, ?_⟩
      obtain ⟨r'', hr'', hid'', hpath''⟩ := h.row_of_id hs.keyed hr'
      rw [← hpath'', ← hpath]
      exact congrArg FileRow.path (List.inj_on_of_nodup_map h.moves.ids hr'' hr
        (hid''.trans (hid'.trans hid)))
    · -- the version that was written
      rw [List.mem_singleton.mp hx] at hxhash hid
      refine Or.inr ⟨hvhash.symm.trans hxhash, ?_⟩
      rw [List.inj_on_of_nodup_map h.moves.ids hr ((h.moves.mem row).mpr (Or.inl rfl))
        (hid.symm.trans hv), h.moves.path_eq] at hpath
      exact hpath
  · rintro (⟨r, hr, ⟨x, hx, hxhash, hid⟩, hpath⟩ | ⟨hhash, hpath⟩)
    · obtain ⟨r', hr', hid', hpath'⟩ := h.row_of_id hs.keyed hr
      exact ⟨r', hr', ⟨x, List.mem_append_left _ hx, hxhash, hid.trans hid'.symm⟩,
        hpath'.trans hpath⟩
    · exact ⟨row, (h.moves.mem row).mpr (Or.inl rfl),
        ⟨v, List.mem_append_right _ List.mem_cons_self, hvhash.trans hhash, hv⟩,
        h.moves.path_eq.trans hpath⟩

end

/-- The paths of a hash depend on files and versions alone. -/
private theorem pathsForContentHash_congr {s s' : TeamStore} (hteam : s'.team = s.team)
    (hversions : s'.versions = s.versions) (hash : Str) :
    pathsForContentHash s' hash = pathsForContentHash s hash := by
  simp only [pathsForContentHash, hteam, hversions]

private theorem TeamStore.Tracked.congr {s s' : TeamStore} (hs : s.Tracked)
    (hteam : s'.team = s.team) (hversions : s'.versions = s.versions) : s'.Tracked := by
  refine ⟨?_, ?_, ?_⟩ <;> rw [hteam]
  · exact hs.keyed
  · rw [hversions]
    exact hs.known
  · rw [hversions]
    exact hs.current

/-! ## What the handlers do -/

/-- Marking the blobs of a hash. -/
def verifyBlobs (blobs : List BlobRow) (hash : Str) : List BlobRow :=
  blobs.map fun b => if b.contentHash = hash then { b with verified := true } else b

/-- A completion that succeeds commits the write of a session of its actor and marks the blob. -/
theorem handleSyncUploadComplete_ok {teamId actorId : Str} {uploadSessionId now newId : Nat}
    {s s' : SyncServer} {w : CompletedWrite} (hkeyed : s.store.team.Keyed)
    (h : handleSyncUploadComplete teamId actorId uploadSessionId now newId s = (s', .ok w)) :
    (∃ row, Commits s.store s'.store w row) ∧
      ∃ session ∈ s.store.sessions, session.actorId = actorId ∧ w.path = session.path ∧
        w.contentHash = some session.contentHash ∧
        s'.store.blobs = verifyBlobs s.store.blobs session.contentHash ∧
        s'.store.sessions = completeSession s.store.sessions uploadSessionId := by
  unfold handleSyncUploadComplete at h
  cases hfind : s.store.sessions.find? (·.id == uploadSessionId) with
  -- no session: the upload is not found
  | none => simp only [hfind, Prod.mk.injEq, reduceCtorEq, and_false] at h
  | some session =>
    simp only [hfind] at h
    split at h
    · cases h
    -- of the seven answers one commits
    next hactor =>
    split at h
    · cases h
    split at h
    · cases h
    split at h
    · cases h
    split at h
    · cases h
    next store write hrpc =>
    cases h
    refine ⟨(amuxcCompleteUpload_commits hkeyed hrpc).1, session, List.mem_of_find?_eq_some hfind,
      not_not.mp hactor, ?_⟩
    -- and it does so for the session found above
    unfold amuxcCompleteUpload at hrpc
    simp only [hfind] at hrpc
    split at hrpc
    · cases hrpc
    split at hrpc
    · cases hrpc
    split at hrpc
    · cases hrpc
    · cases hrpc
      exact ⟨rfl, rfl, rfl, rfl⟩

/-- A completion that fails changes nothing. -/
theorem handleSyncUploadComplete_failed {teamId actorId : Str} {uploadSessionId now newId : Nat}
    {s s' : SyncServer} {response : CompleteResponse}
    (h : handleSyncUploadComplete teamId actorId uploadSessionId now newId s = (s', response))
    (hresponse : ∀ w, response ≠ .ok w) : s' = s := by
  unfold handleSyncUploadComplete at h
  split at h
  · -- every failure is answered before the store is written
    cases h; rfl
  · split at h
    · cases h; rfl
    · split at h
      · cases h; rfl
      · split at h
        · cases h; rfl
        · dsimp only at h
          split at h
          · cases h; rfl
          · split at h
            · cases h; rfl
            · cases h
              exact absurd rfl (hresponse _)

/-- What a delete changes: nothing, or it commits a write that points at no hash. -/
theorem handleSyncDelete_spec (actorId : Str) (view : AclView) (path : Str) (parentVersion : Nat)
    {s : SyncServer} (hkeyed : s.store.team.Keyed) :
    let s' := (handleSyncDelete actorId view path parentVersion s).1
    s'.store.blobs = s.store.blobs ∧ s'.store.sessions = s.store.sessions ∧
      (s' = s ∨ ∃ w row, Commits s.store s'.store w row ∧ w.contentHash = none) := by
  unfold handleSyncDelete
  split
  · exact ⟨rfl, rfl, Or.inl rfl⟩
  · split
    · exact ⟨rfl, rfl, Or.inl rfl⟩
    · split
      · exact ⟨rfl, rfl, Or.inl rfl⟩
      · next store w hrpc =>
        obtain ⟨⟨row, hc⟩, hsessions⟩ := amuxcCompleteDelete_commits hkeyed hrpc
        unfold amuxcCompleteDelete at hrpc
        split at hrpc
        · cases hrpc
        · cases hrpc
          exact ⟨rfl, hsessions, Or.inr ⟨_, row, hc, rfl⟩⟩

/-- What a prepare changes: it may append a blob that is not verified, and a session for a path that
    is open to its actor. -/
structure Prepares (actorId : Str) (view : AclView) (contentHash : Str) (size : Nat)
    (s s' : TeamStore) : Prop where
  team : s'.team = s.team
  versions : s'.versions = s.versions
  blobs : s'.blobs = s.blobs ∨ contentHash ∉ s.blobs.map (·.contentHash) ∧
    s'.blobs = s.blobs ++ [{ contentHash, size, verified := false }]
  sessions : ∀ x ∈ s'.sessions, x ∈ s.sessions ∨
    (x.actorId = actorId ∧ isDenied x.path view = false ∧ x.contentHash ≠ [] ∧
      x.contentHash ∈ s'.blobs.map (·.contentHash))

theorem handleSyncUploadPrepare_prepares (teamId actorId : Str) (view : AclView) (body : PrepareBody)
    (env : PrepareEnv) (s : SyncServer) :
    Prepares actorId view body.contentHash body.size s.store
      (handleSyncUploadPrepare teamId actorId view body env s).1.store := by
  have hsame : Prepares actorId view body.contentHash body.size s.store s.store :=
    ⟨rfl, rfl, Or.inl rfl, fun x hx => Or.inl hx⟩
  -- the blob row that the upsert leaves
  have hblobs : ∀ blobs : List BlobRow, blobs = (if (s.blob body.contentHash).isSome then s.store.blobs
      else s.store.blobs ++
        [{ contentHash := body.contentHash, size := body.size, verified := false }]) →
      (blobs = s.store.blobs ∨ body.contentHash ∉ s.store.blobs.map (·.contentHash) ∧
        blobs = s.store.blobs ++
          [{ contentHash := body.contentHash, size := body.size, verified := false }]) ∧
        body.contentHash ∈ blobs.map (·.contentHash) := by
    rintro blobs rfl
    cases hfind : s.blob body.contentHash with
    | some b =>
      have hb : b ∈ s.store.blobs ∧ b.contentHash = body.contentHash :=
        ⟨List.mem_of_find?_eq_some hfind, by simpa using List.find?_some hfind⟩
      exact ⟨Or.inl rfl, List.mem_map.mpr ⟨b, hb⟩⟩
    | none =>
      have hnone : body.contentHash ∉ s.store.blobs.map (·.contentHash) := by
        simpa [SyncServer.blob, List.find?_eq_none] using hfind
      exact ⟨Or.inr ⟨hnone, rfl⟩, by simp⟩
  simp only [handleSyncUploadPrepare]
  split
  · exact hsame
  split
  · exact hsame
  split
  · exact hsame
  next hopen =>
  split
  · exact hsame
  next hnonempty =>
  split
  · exact hsame
  split
  · exact hsame
  obtain ⟨hrows, hrow⟩ := hblobs _ rfl
  -- the session is open already, or is inserted
  split
  · exact ⟨rfl, rfl, hrows, fun x hx => Or.inl hx⟩
  · next hfresh =>
    simp only [insertSession, if_neg hfresh]
    refine ⟨rfl, rfl, hrows, fun x hx => ?_⟩
    refine (List.mem_append.mp hx).imp_right fun hx => ?_
    rw [List.mem_singleton.mp hx]
    exact ⟨rfl, Bool.eq_false_iff.mpr hopen, hnonempty, hrow⟩

/-! ## The invariant -/

section

variable {teamId : Str} {views : Str → AclView} {sha256 : Bytes → Str}

/-- The tables and the notes of the completions tell the same. -/
structure BlobState.Inv (views : Str → AclView) (s : BlobState) : Prop where
  tracked : s.server.store.Tracked
  points : ∀ hash path, path ∈ pathsForContentHash s.server.store hash ↔
    ∃ e ∈ s.pointed, e.hash = hash ∧ e.path = path
  verified : ∀ hash, (∃ b ∈ s.server.store.blobs, b.contentHash = hash ∧ b.verified = true) ↔
    ∃ e ∈ s.pointed, e.hash = hash
  blobHashes : (s.server.store.blobs.map (·.contentHash)).Nodup
  nonempty : ∀ e ∈ s.pointed, e.hash ≠ []
  sessions : ∀ x ∈ s.server.store.sessions, isDenied x.path (views x.actorId) = false ∧
    x.contentHash ≠ [] ∧ x.contentHash ∈ s.server.store.blobs.map (·.contentHash)

theorem BlobState.inv_init : BlobState.Inv views {} where
  tracked := ⟨⟨List.nodup_nil, List.nodup_nil⟩, fun _ h => absurd h List.not_mem_nil,
    fun _ h => absurd h List.not_mem_nil⟩
  points _ _ := by simp [pathsForContentHash]
  verified _ := by simp
  blobHashes := List.nodup_nil
  nonempty := fun _ h => absurd h List.not_mem_nil
  sessions := fun _ h => absurd h List.not_mem_nil

/-- The completions that made a path point at a hash, seen by an actor. -/
theorem BlobState.Inv.reads_iff {s : BlobState} (hs : s.Inv views) {actorId hash : Str} :
    s.Reads views actorId hash ↔
      ∃ e ∈ s.pointed, e.hash = hash ∧ isDenied e.path (views actorId) = false := by
  constructor
  · rintro ⟨path, hpath, hopen⟩
    obtain ⟨e, he, hhash, rfl⟩ := (hs.points hash path).mp hpath
    exact ⟨e, he, hhash, hopen⟩
  · rintro ⟨e, he, hhash, hopen⟩
    exact ⟨e.path, (hs.points hash e.path).mpr ⟨e, he, hhash, rfl⟩, hopen⟩

/-- Without denied prefixes nothing is denied. -/
private theorem isDenied_of_denied_nil {view : AclView} (h : view.denied = []) (path : Str) :
    isDenied path view = false := by
  simp [isDenied, h]

/-- A download returns a URL exactly if some path of the hash is open to the caller. -/
theorem BlobState.Inv.downloadable_iff {s : BlobState} (hs : s.Inv views) {actorId hash : Str} :
    s.Downloadable teamId views actorId hash ↔ s.Reads views actorId hash := by
  unfold BlobState.Downloadable handleSyncDownload
  constructor
  · intro hok
    split at hok
    · cases hok
    split at hok
    · cases hok
    next haccess =>
    split at hok
    · cases hok
    next blob hblob =>
    split at hok
    · cases hok
    next hverified =>
    -- the blob is verified, so some path points at its hash
    have hverified := Bool.not_eq_false _ |>.mp (by simpa using hverified)
    obtain ⟨e, he, hhash⟩ := (hs.verified hash).mp ⟨blob, List.mem_of_find?_eq_some hblob,
      by simpa using List.find?_some hblob, hverified⟩
    have hpath : e.path ∈ pathsForContentHash s.server.store hash :=
      (hs.points hash e.path).mpr ⟨e, he, hhash, rfl⟩
    by_cases hdenied : (views actorId).denied = []
    · exact ⟨e.path, hpath, isDenied_of_denied_nil hdenied _⟩
    · simp only [blobAccessDecision, Bool.and_eq_true, Bool.or_eq_true, Bool.not_eq_true',
        List.isEmpty_eq_false_iff, ne_eq, hdenied, not_false_eq_true, true_or, true_and,
        Bool.not_eq_false, List.isEmpty_iff] at haccess
      rcases haccess with hempty | hopen
      · rw [hempty] at hpath
        exact absurd hpath List.not_mem_nil
      · obtain ⟨path, hmem⟩ := List.exists_mem_of_ne_nil _ hopen
        obtain ⟨hmem, hopen⟩ := List.mem_filter.mp hmem
        exact ⟨path, hmem, by simpa using hopen⟩
  · rintro ⟨path, hpath, hopen⟩
    obtain ⟨e, he, hhash, -⟩ := (hs.points hash path).mp hpath
    obtain ⟨b, hb, hbhash, hverified⟩ := (hs.verified hash).mpr ⟨e, he, hhash⟩
    -- the blob of the hash is that row, as hashes are unique
    have hblob : s.server.blob hash = some b := by
      obtain ⟨b', hb'⟩ : ∃ b', s.server.blob hash = some b' := by
        rw [← Option.isSome_iff_exists]
        exact List.find?_isSome.mpr ⟨b, hb, by simpa using hbhash⟩
      have hhash' : b'.contentHash = hash := by simpa using List.find?_some hb'
      rw [hb', List.inj_on_of_nodup_map hs.blobHashes (List.mem_of_find?_eq_some hb') hb
        (hhash'.trans hbhash.symm)]
    -- an open path grants access even where other paths are denied
    have haccess : blobAccessDecision s.server.store hash (views actorId) = true := by
      simp only [blobAccessDecision, Bool.or_eq_true, Bool.not_eq_true', List.isEmpty_eq_false_iff]
      exact Or.inr (List.ne_nil_of_mem (List.mem_filter.mpr ⟨hpath, by simpa using hopen⟩))
    -- so no check of the handler fails
    rw [if_neg (hhash ▸ hs.nonempty e he), haccess, Bool.not_true, Bool.and_false,
      if_neg Bool.false_ne_true, hblob]
    simp only [hverified, Bool.not_true, Bool.false_eq_true, if_false]
    rfl

/-! ## Steps -/

/-- A completion fails and changes nothing, or it commits the write of a session of its actor. -/
theorem BlobState.complete_cases (s : BlobState) (hs : s.Inv views) (actorId : Str)
    (uploadSessionId now newId : Nat) :
    (s.complete teamId views sha256 actorId uploadSessionId now newId = s ∧
      CompletesOwn teamId views sha256 s (.complete actorId uploadSessionId now newId)) ∨
    ∃ server w row, ∃ session ∈ s.server.store.sessions,
      Commits s.server.store server.store w row ∧ session.actorId = actorId ∧
      w.path = session.path ∧ w.contentHash = some session.contentHash ∧
      server.store.blobs = verifyBlobs s.server.store.blobs session.contentHash ∧
      server.store.sessions = completeSession s.server.store.sessions uploadSessionId ∧
      s.complete teamId views sha256 actorId uploadSessionId now newId =
        { s with
          server
          pointed := s.pointed ++
            [{ actorId, path := session.path, hash := session.contentHash
               hadPut := s.HadPut teamId sha256 actorId session.contentHash
               couldDownload := s.Downloadable teamId views actorId session.contentHash }] } ∧
      (CompletesOwn teamId views sha256 s (.complete actorId uploadSessionId now newId) ↔
        s.HadPut teamId sha256 actorId session.contentHash ∨
          s.Reads views actorId session.contentHash) := by
  unfold BlobState.complete
  dsimp only [CompletesOwn]
  generalize hresult :
    handleSyncUploadComplete teamId actorId uploadSessionId now newId s.server = result
  obtain ⟨server, response⟩ := result
  cases response with
  | ok w =>
    obtain ⟨⟨row, hc⟩, session, hsession, hactor, hpath, hhash, hblobs, hsessions⟩ :=
      handleSyncUploadComplete_ok hs.tracked.keyed hresult
    refine Or.inr ⟨server, w, row, session, hsession, hc, hactor, hpath, hhash, hblobs, hsessions, ?_⟩
    obtain ⟨path, version, parentVersion, contentHash, changeSeq⟩ := w
    dsimp only at hpath hhash
    subst hpath hhash
    exact ⟨rfl, Iff.rfl⟩
  -- the other responses leave the server as it was
  | _ =>
    rw [handleSyncUploadComplete_failed hresult nofun]
    exact Or.inl ⟨rfl, trivial⟩

/-- Marking the blobs of a hash keeps the hashes, and marks these. -/
private theorem verifyBlobs_spec (blobs : List BlobRow) (hash : Str) :
    (verifyBlobs blobs hash).map (·.contentHash) = blobs.map (·.contentHash) ∧
      ∀ h, (∃ b ∈ verifyBlobs blobs hash, b.contentHash = h ∧ b.verified = true) ↔
        (∃ b ∈ blobs, b.contentHash = h ∧ b.verified = true) ∨
          (h = hash ∧ hash ∈ blobs.map (·.contentHash)) := by
  unfold verifyBlobs
  constructor
  · rw [List.map_map]
    refine List.map_congr_left fun b _ => ?_
    rw [Function.comp_apply]
    split <;> rfl
  · intro h
    constructor
    · rintro ⟨b', hb', hhash, hverified⟩
      obtain ⟨b, hb, rfl⟩ := List.mem_map.mp hb'
      -- the row of the hash is verified now, the others as before
      by_cases heq : b.contentHash = hash
      · rw [if_pos heq] at hhash
        exact Or.inr ⟨hhash ▸ heq, heq ▸ List.mem_map_of_mem hb⟩
      · rw [if_neg heq] at hhash hverified
        exact Or.inl ⟨b, hb, hhash, hverified⟩
    · rintro (⟨b, hb, hhash, hverified⟩ | ⟨rfl, hmem⟩)
      · refine ⟨_, List.mem_map_of_mem hb, ?_⟩
        split
        · exact ⟨hhash, rfl⟩
        · exact ⟨hhash, hverified⟩
      · obtain ⟨b, hb, rfl⟩ := List.mem_map.mp hmem
        exact ⟨_, List.mem_map_of_mem hb, by rw [if_pos rfl]; exact ⟨rfl, rfl⟩⟩

/-- Completing a session keeps what the sessions ask for. -/
private theorem mem_completeSession {sessions : List UploadSession} {id : Nat} {x : UploadSession}
    (hx : x ∈ completeSession sessions id) :
    ∃ y ∈ sessions, x.actorId = y.actorId ∧ x.path = y.path ∧ x.contentHash = y.contentHash := by
  obtain ⟨y, hy, rfl⟩ := List.mem_map.mp hx
  refine ⟨y, hy, ?_⟩
  split <;> exact ⟨rfl, rfl, rfl⟩

/-- Every step keeps the invariant. -/
theorem BlobState.inv_step (s : BlobState) (step : BlobStep) (hs : s.Inv views) :
    ((blobMachine teamId views sha256).step s step).Inv views := by
  cases step with
  | prepare actorId body env =>
    obtain ⟨hteam, hversions, hblobs, hsessions⟩ :=
      handleSyncUploadPrepare_prepares teamId actorId (views actorId) body env s.server
    simp only [blobMachine]
    -- the hashes of the blobs only grow, and the new blob is not verified
    have hgrow : ∀ hash ∈ s.server.store.blobs.map (·.contentHash), hash ∈
        (handleSyncUploadPrepare teamId actorId (views actorId) body env s.server).1.store.blobs.map
          (·.contentHash) := by
      intro hash hmem
      rcases hblobs with heq | ⟨-, heq⟩ <;> rw [heq]
      · exact hmem
      · rw [List.map_append]
        exact List.mem_append_left _ hmem
    refine ⟨hs.tracked.congr hteam hversions, fun hash path => ?_, fun hash => ?_, ?_, hs.nonempty,
      fun x hx => ?_⟩
    · rw [pathsForContentHash_congr hteam hversions]
      exact hs.points hash path
    · rw [← hs.verified hash]
      rcases hblobs with heq | ⟨-, heq⟩ <;> rw [heq]
      simp
    · rcases hblobs with heq | ⟨hnew, heq⟩ <;> rw [heq]
      · exact hs.blobHashes
      · rw [List.map_append, List.map_singleton, List.nodup_append_comm]
        exact List.nodup_cons.mpr ⟨hnew, hs.blobHashes⟩
    · rcases hsessions x hx with hx | ⟨rfl, hopen, hnonempty, hmem⟩
      · obtain ⟨hopen, hnonempty, hmem⟩ := hs.sessions x hx
        exact ⟨hopen, hnonempty, hgrow _ hmem⟩
      · exact ⟨hopen, hnonempty, hmem⟩
  | put actorId ossKey bytes =>
    simp only [blobMachine]
    split
    · next hurl =>
      have hstore : (s.server.putObject actorId ossKey bytes).store = s.server.store := by
        simp only [SyncServer.putObject, if_pos hurl]
      refine ⟨?_, ?_, ?_, ?_, hs.nonempty, ?_⟩ <;> dsimp only <;> rw [hstore]
      · exact hs.tracked
      · exact hs.points
      · exact hs.verified
      · exact hs.blobHashes
      · exact hs.sessions
    · exact hs
  | complete actorId uploadSessionId now newId =>
    simp only [blobMachine]
    rcases s.complete_cases hs actorId uploadSessionId now newId with
      ⟨heq, -⟩ | ⟨server, w, row, session, hsession, hc, hactor, hpath, hhash, hblobs, hsessions,
        heq, -⟩ <;> rw [heq]
    · exact hs
    · obtain ⟨hopen, hnonempty, hmem⟩ := hs.sessions session hsession
      obtain ⟨hhashes, hverify⟩ := verifyBlobs_spec s.server.store.blobs session.contentHash
      refine ⟨hc.tracked hs.tracked, fun hash path => ?_, fun hash => ?_, ?_, ?_, fun x hx => ?_⟩
      · rw [hc.mem_paths hs.tracked, hs.points, hhash, hpath, Option.some.injEq]
        simp only [List.mem_append, List.mem_singleton, or_and_right, exists_or, exists_eq_left]
      · rw [hblobs, hverify, hs.verified]
        simp only [List.mem_append, List.mem_singleton, or_and_right, exists_or, exists_eq_left,
          hmem, and_true, eq_comm]
      · rw [hblobs, hhashes]
        exact hs.blobHashes
      · intro e he
        rcases List.mem_append.mp he with he | he
        · exact hs.nonempty e he
        · rw [List.mem_singleton.mp he]
          exact hnonempty
      · rw [hsessions] at hx
        obtain ⟨y, hy, hyactor, hypath, hyhash⟩ := mem_completeSession hx
        rw [hblobs, hhashes, hyactor, hypath, hyhash]
        exact hs.sessions y hy
  | delete actorId path parentVersion =>
    obtain ⟨hblobs, hsessions, hdone⟩ :=
      handleSyncDelete_spec actorId (views actorId) path parentVersion hs.tracked.keyed
    simp only [blobMachine]
    rcases hdone with heq | ⟨w, row, hc, hnone⟩
    · rw [heq]
      exact hs
    · refine ⟨hc.tracked hs.tracked, fun hash path => ?_, ?_, ?_, hs.nonempty, ?_⟩
      · rw [hc.mem_paths hs.tracked, hs.points, hnone]
        simp
      · rw [hblobs]
        exact hs.verified
      · rw [hblobs]
        exact hs.blobHashes
      · rw [hblobs, hsessions]
        exact hs.sessions
  | abandonExpired now =>
    refine ⟨hs.tracked.congr rfl rfl, hs.points, hs.verified, hs.blobHashes, hs.nonempty,
      fun x hx => ?_⟩
    obtain ⟨y, hy, rfl⟩ := List.mem_map.mp (List.mem_of_mem_filter hx)
    split <;> exact hs.sessions y hy
  | manifest | versions | download => exact hs

theorem BlobState.inv_run (steps : List BlobStep) :
    ((blobMachine teamId views sha256).run steps).Inv views :=
  Machine.invariant_runFrom (G := fun _ _ => True) (fun s step hs _ => inv_step s step hs)
    BlobState.inv_init (Machine.steps_true _ _ _)

/-! ## The law -/

/-- Every completion so far was by an actor who had put the bytes or could download them. -/
def BlobState.Own (s : BlobState) : Prop := ∀ e ∈ s.pointed, e.hadPut = true ∨ e.couldDownload = true

/-- No actor made a path point at a hash whose bytes he did not put, while every path that the others
    made point at it is denied to him. -/
def BlobState.Withheld (teamId : Str) (views : Str → AclView) (sha256 : Bytes → Str) (s : BlobState) :
    Prop :=
  ∀ actorId hash, ¬ s.HadPut teamId sha256 actorId hash →
    (∀ e ∈ s.pointed, e.hash = hash → e.actorId ≠ actorId →
      isDenied e.path (views actorId) = true) →
    ∀ e ∈ s.pointed, e.hash = hash → e.actorId ≠ actorId

/-- A step that meets the condition keeps both. -/
private theorem own_withheld_step (s : BlobState) (step : BlobStep)
    (h : s.Inv views ∧ s.Own ∧ s.Withheld teamId views sha256)
    (hguard : CompletesOwn teamId views sha256 s step) :
    ((blobMachine teamId views sha256).step s step).Inv views ∧
      ((blobMachine teamId views sha256).step s step).Own ∧
      ((blobMachine teamId views sha256).step s step).Withheld teamId views sha256 := by
  obtain ⟨hs, hown, hwithheld⟩ := h
  refine ⟨s.inv_step step hs, ?_⟩
  cases step with
  | put actorId ossKey bytes =>
    simp only [blobMachine]
    split
    · refine ⟨hown, fun a hash hput => hwithheld a hash fun hbefore => hput ?_⟩
      obtain ⟨p, hp, hmatch⟩ := hbefore
      exact ⟨p, List.mem_append_left _ hp, hmatch⟩
    · exact ⟨hown, hwithheld⟩
  | complete actorId uploadSessionId now newId =>
    simp only [blobMachine]
    rcases s.complete_cases hs actorId uploadSessionId now newId with
      ⟨heq, -⟩ | ⟨server, w, row, session, -, -, -, -, -, -, -, heq, hiff⟩ <;> rw [heq]
    · exact ⟨hown, hwithheld⟩
    · have hsource := hiff.mp hguard
      refine ⟨fun e he => ?_, fun a hash hput hothers e he hhash hactor => ?_⟩
      · rcases List.mem_append.mp he with he | he
        · exact hown e he
        · rw [List.mem_singleton.mp he]
          simp only [decide_eq_true_eq, hs.downloadable_iff]
          exact hsource
      · have hbefore := hwithheld a hash hput fun e he => hothers e (List.mem_append_left _ he)
        rcases List.mem_append.mp he with he | he
        · exact hbefore e he hhash hactor
        · obtain rfl := List.mem_singleton.mp he
          obtain rfl : actorId = a := hactor
          obtain rfl : session.contentHash = hash := hhash
          -- he put nothing, so he read a path, and that path is denied to him
          obtain ⟨e', he', hhash', hopen⟩ := hs.reads_iff.mp (hsource.resolve_left hput)
          have hdenied := hothers e' (List.mem_append_left _ he') hhash' (hbefore e' he' hhash')
          exact Bool.false_ne_true (hopen.symm.trans hdenied)
  | prepare | delete | abandonExpired | manifest | versions | download => exact ⟨hown, hwithheld⟩

/-- If a run is justified in all its states, its steps meet the condition. -/
private theorem completesOwn_of_justified (s : BlobState) (step : BlobStep) (hs : s.Inv views)
    (hnext : ((blobMachine teamId views sha256).step s step).Justified teamId views) :
    CompletesOwn teamId views sha256 s step := by
  cases step with
  | complete actorId uploadSessionId now newId =>
    have hinv : ((blobMachine teamId views sha256).step s
        (.complete actorId uploadSessionId now newId)).Inv views := s.inv_step _ hs
    simp only [blobMachine] at hnext hinv
    rcases @BlobState.complete_cases teamId views sha256 s hs actorId uploadSessionId now newId with
      ⟨-, hguard⟩ | ⟨server, w, row, session, hsession, -, rfl, -, -, -, -, heq, hiff⟩
    · exact hguard
    · rw [heq] at hnext hinv
      refine hiff.mpr ?_
      -- the actor can download what he has made his own path point at
      obtain ⟨e, he, hhash, hopen, hsource⟩ := hnext session.actorId session.contentHash
        (hinv.downloadable_iff.mpr (hinv.reads_iff.mpr ⟨_, List.mem_append_right _
          List.mem_cons_self, rfl, (hs.sessions session hsession).1⟩))
      rcases List.mem_append.mp he with he | he
      · exact Or.inr (hs.reads_iff.mpr ⟨e, he, hhash, hopen⟩)
      · rw [List.mem_singleton.mp he] at hsource
        simpa only [decide_eq_true_eq, hs.downloadable_iff] using hsource
  | prepare | put | delete | abandonExpired | manifest | versions | download => trivial

/-- All states of a run are justified, so its steps meet the condition. -/
private theorem steps_of_justified (s : BlobState) (hs : s.Inv views) (steps : List BlobStep)
    (h : ∀ pre, pre <+: steps →
      ((blobMachine teamId views sha256).runFrom s pre).Justified teamId views) :
    (blobMachine teamId views sha256).Steps (CompletesOwn teamId views sha256) s steps := by
  induction steps generalizing s with
  | nil => trivial
  | cons step steps ih =>
    refine ⟨completesOwn_of_justified s step hs (h [step] ⟨steps, rfl⟩), ?_⟩
    exact ih _ (s.inv_step step hs) fun pre hpre => h (step :: pre) (List.cons_prefix_cons.mpr ⟨rfl, hpre⟩)

end

/-- Bob may not see `knowledge/hr/`. -/
def hrViews (actorId : Str) : AclView :=
  if actorId = "bob".toList then
    { denied := ["knowledge/hr/".toList], allPrefixes := ["knowledge/hr/".toList]
      denied_subset := List.Subset.refl _ }
  else { denied := [], allPrefixes := ["knowledge/hr/".toList], denied_subset := List.nil_subset _ }

/-- Contents that are named by their bytes. -/
def bytesName (bytes : Bytes) : Str := bytes.map fun b => Char.ofNat b.toNat

/-- Alice uploads a restricted document.  Bob, who knows its hash and size, prepares an upload to a
    path of his own, is not asked for the bytes, and completes it. -/
def hashOnlySteps : List BlobStep :=
  [.prepare "alice".toList
      { path := "knowledge/hr/pay.md".toList, parentVersion := 0, contentHash := "pay".toList, size := 3 }
      { now := 0, sessionId := 1 },
    .put "alice".toList (ossKeyForHash "t".toList "pay".toList) (("pay".toList).map fun c => c.toNat.toUInt8),
    .complete "alice".toList 1 1 10,
    .prepare "bob".toList
      { path := "knowledge/bob.md".toList, parentVersion := 0, contentHash := "pay".toList, size := 3 }
      { now := 2, sessionId := 2 },
    .complete "bob".toList 2 3 11]

end TeamClu.Fc
