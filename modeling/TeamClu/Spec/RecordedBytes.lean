import TeamClu.Native.SyncProcesses
import TeamClu.Spec.PullTransfers
import TeamClu.Spec.ScanFacts

/-!
# The bytes that an entry was recorded for

An entry says by a hash which bytes of its file were synced.  A piece of work gives a path another such
hash only when it has written a download or completed an upload, and the hash is then that of the bytes
which it has downloaded or uploaded (`Work.records`).  The one exception is work that goes on writing
to the file after that (`Work.WritesOnce` excludes it).
-/

namespace TeamClu.Sync

variable {crypto : Crypto} {path : Str}

/-- The bytes on disk at a path. -/
def bytesAt (tree : ContentTree) (path : Str) : Option Bytes := tree[path]?.map (·.bytes)

/-- The hash that is recorded as synced for a path, unless it is deleted. -/
def syncedHash (st : LocalSyncState) (path : Str) : Option Str :=
  st.files[path]?.bind fun entry => if entry.deletedLocal then none else some entry.syncedPlainHash

/-- What is recorded of the path was recorded before. -/
def Kept (path : Str) (st st' : LocalSyncState) : Prop :=
  ∀ hash, syncedHash st' path = some hash → syncedHash st path = some hash

/-- The bytes have the hash that is recorded. -/
def Backs (crypto : Crypto) (path : Str) (bytes : Option Bytes) (st : LocalSyncState) : Prop :=
  ∀ hash, syncedHash st path = some hash → bytes.map crypto.sha256Hex = some hash

/-! ## Entries that are kept -/

section Entries

variable {st st' st'' : LocalSyncState}

theorem Kept.refl (st : LocalSyncState) : Kept path st st := fun _ h => h

theorem Kept.trans (h : Kept path st st') (h' : Kept path st' st'') : Kept path st st'' :=
  fun hash hhash => h hash (h' hash hhash)

/-- An entry that is not touched. -/
theorem syncedHash_congr (h : st'.files[path]? = st.files[path]?) :
    syncedHash st' path = syncedHash st path := by
  rw [syncedHash, h, syncedHash]

theorem Kept.of_eq (h : st'.files[path]? = st.files[path]?) : Kept path st st' :=
  fun _ hhash => (syncedHash_congr h).symm.trans hhash

/-- An entry that is forgotten. -/
theorem Kept.of_none (h : st'.files[path]? = none) : Kept path st st' := by
  intro hash hhash
  rw [syncedHash, h] at hhash
  cases hhash

/-- An entry that is changed in other fields, or deleted. -/
theorem Kept.of_map {f : FileState → FileState} (h : st'.files[path]? = st.files[path]?.map f)
    (hhash : ∀ e, (f e).syncedPlainHash = e.syncedPlainHash)
    (hdeleted : ∀ e, e.deletedLocal = true → (f e).deletedLocal = true) : Kept path st st' := by
  intro hash hget
  unfold syncedHash at hget ⊢
  rw [h] at hget
  cases hentry : st.files[path]? with
  | none => rw [hentry] at hget; cases hget
  | some entry =>
    rw [hentry, Option.map_some, Option.bind_some] at hget
    rw [Option.bind_some]
    cases hdel : entry.deletedLocal with
    -- a deleted entry stays deleted, so nothing is recorded of it
    | true =>
      rw [if_pos (hdeleted entry hdel)] at hget
      cases hget
    | false =>
      split at hget
      · cases hget
      · rw [hhash] at hget
        exact hget

/-- The entry of one path is changed in other fields, or deleted. -/
theorem Kept.of_modify {q : Str} {f : FileState → FileState} (h : st'.files = st.files.modify q f)
    (hhash : ∀ e, (f e).syncedPlainHash = e.syncedPlainHash)
    (hdeleted : ∀ e, e.deletedLocal = true → (f e).deletedLocal = true) : Kept path st st' := by
  by_cases hq : q = path
  · refine Kept.of_map (f := f) ?_ hhash hdeleted
    rw [h, TreeMap.get_modify, if_pos hq]
  · refine Kept.of_eq ?_
    rw [h, TreeMap.get_modify, if_neg hq]

theorem Kept.markForbidden (st : LocalSyncState) (q reason : Str) (now : Nat) :
    Kept path st (st.markForbidden q reason now) :=
  Kept.of_modify rfl (fun _ => rfl) fun _ h => h

theorem Kept.markTombstoned (st : LocalSyncState) (q : Str) (version : Nat) :
    Kept path st (st.markTombstoned q version) :=
  Kept.of_modify rfl (fun _ => rfl) fun _ _ => rfl

theorem Kept.advanceDirtyToTombstone (st : LocalSyncState) (q : Str) (version : Nat) :
    Kept path st (st.advanceDirtyToTombstone q version) := by
  refine Kept.of_modify rfl (fun e => ?_) fun e he => ?_
  · split <;> rfl
  · split <;> exact he

/-- A path that is forbidden stays as it is, but for its flag. -/
theorem syncedHash_markForbidden (st : LocalSyncState) (q reason : Str) (now : Nat) :
    syncedHash (st.markForbidden q reason now) path = syncedHash st path := by
  unfold syncedHash LocalSyncState.markForbidden
  simp only [TreeMap.get_modify]
  split
  · cases st.files[path]? <;> rfl
  · rfl

/-- The entry of a path that is written anew. -/
theorem syncedHash_upsert (st : LocalSyncState) (version : Nat) (cipherHash plainHash localHash : Str)
    (mtime size : Nat) :
    syncedHash (st.upsert path version cipherHash plainHash localHash mtime size) path = some plainHash := by
  simp [syncedHash, LocalSyncState.upsert]

theorem syncedHash_upsert_of_ne {q : Str} (hne : q ≠ path) (st : LocalSyncState) (version : Nat)
    (cipherHash plainHash localHash : Str) (mtime size : Nat) :
    syncedHash (st.upsert q version cipherHash plainHash localHash mtime size) path =
      syncedHash st path := by
  refine syncedHash_congr ?_
  rw [LocalSyncState.upsert, TreeMap.get_insert, if_neg hne]

end Entries

/-! ## Files -/

theorem bytesAt_write (tree : ContentTree) (bytes : Bytes) (mtime : Nat) :
    bytesAt (tree.write path bytes mtime) path = some bytes := by
  unfold bytesAt ContentTree.write
  rw [TreeMap.get_insert, if_pos rfl]
  split <;> rfl

theorem bytesAt_write_of_ne {q : Str} (hne : q ≠ path) (tree : ContentTree) (bytes : Bytes)
    (mtime : Nat) : bytesAt (tree.write q bytes mtime) path = bytesAt tree path := by
  unfold bytesAt ContentTree.write
  rw [TreeMap.get_insert, if_neg hne]

/-! ## Downloads -/

/-- The write does not leave a file that is then not recorded. -/
def WriteReply.Whole : WriteReply → Prop
  | .writeFails _ (some _) => False
  | .statFails _ _ => False
  | _ => True

/-- No download that is answered leaves a file that is then not recorded. -/
def WritesWhole (replies : Nat → ChunkReply) : Prop :=
  ∀ k t, (∃ outcomes, (replies k).batch = .ok outcomes ∧ .ok t ∈ outcomes) ∨
    (∃ i, (replies k).single i = .ok t) → t.write.Whole

/-- At most one element of the list is for the path. -/
def AtMostOnce {α : Type} (key : α → Str) (path : Str) (l : List α) : Prop :=
  l.Pairwise fun a b => ¬ (key a = path ∧ key b = path)

/-- The place of that element. -/
theorem AtMostOnce.eq_of_getElem {α : Type} {key : α → Str} {l : List α} (h : AtMostOnce key path l)
    {i j : Nat} {a b : α} (hi : l[i]? = some a) (hj : l[j]? = some b) (ha : key a = path)
    (hb : key b = path) : i = j := by
  obtain ⟨hi', rfl⟩ := List.getElem?_eq_some_iff.mp hi
  obtain ⟨hj', rfl⟩ := List.getElem?_eq_some_iff.mp hj
  rcases Nat.lt_trichotomy i j with hlt | heq | hlt
  · exact absurd ⟨ha, hb⟩ (List.pairwise_iff_getElem.mp h i j hi' hj' hlt)
  · exact heq
  · exact absurd ⟨hb, ha⟩ (List.pairwise_iff_getElem.mp h j i hj' hi' hlt)

/-- Fewer elements. -/
theorem AtMostOnce.of_sublist {α β : Type} {key : α → Str} {key' : β → Str} {l : List α} {l' : List β}
    (h : AtMostOnce key' path l') (hsub : (l.map key).Sublist (l'.map key')) : AtMostOnce key path l := by
  have hkeys : (l'.map key').Pairwise fun a b => ¬ (a = path ∧ b = path) := List.pairwise_map.mpr h
  exact List.pairwise_map.mp (hkeys.sublist hsub)

/-- What is recorded was recorded before, or is what is on disk. -/
def Accounts (crypto : Crypto) (path : Str) (before : LocalSyncState) (d : Device) : Prop :=
  Kept path before d.state ∨ Backs crypto path (bytesAt d.tree path) d.state

section Downloads

variable {before : LocalSyncState} {d : Device} {item : PullItem} {t : Transfer}

/-- Neither the entry nor the file of the path is touched. -/
theorem Accounts.congr {d' : Device} (h : Accounts crypto path before d)
    (hstate : syncedHash d'.state path = syncedHash d.state path)
    (htree : bytesAt d'.tree path = bytesAt d.tree path) : Accounts crypto path before d' := by
  rcases h with h | h
  · exact .inl fun hash hhash => h hash (hstate.symm.trans hhash)
  · exact .inr fun hash hhash => htree ▸ h hash (hstate.symm.trans hhash)

/-- Neither the entries nor the files are touched. -/
theorem Accounts.of_files {d' : Device} (h : Accounts crypto path before d)
    (hfiles : d'.state.files = d.state.files) (htree : d'.tree = d.tree) :
    Accounts crypto path before d' :=
  h.congr (syncedHash_congr (by rw [hfiles])) (by rw [htree])

/-- A transfer of another path. -/
theorem transferItem_of_ne (hne : item.path ≠ path) :
    syncedHash (transferItem crypto d item t).state path = syncedHash d.state path ∧
      bytesAt (transferItem crypto d item t).tree path = bytesAt d.tree path := by
  constructor
  · unfold transferItem recordTransfer
    cases transferResult crypto item t with
    | ok w => exact syncedHash_upsert_of_ne hne ..
    | error e => rfl
  · unfold transferItem transferTree
    dsimp only
    split
    · rfl
    · exact bytesAt_write_of_ne hne ..

/-- A transfer that fails records nothing. -/
theorem transferItem_of_error {e : SyncError} (h : transferResult crypto item t = .error e) :
    (transferItem crypto d item t).state.files = d.state.files := by
  unfold transferItem recordTransfer
  rw [h]
  rfl

/-- A transfer that goes through records the bytes that it has written. -/
theorem transferItem_of_ok {w : WriteResult} (hpath : item.path = path)
    (h : transferResult crypto item t = .ok w) :
    Backs crypto path (bytesAt (transferItem crypto d item t).tree path)
      (transferItem crypto d item t).state := by
  subst hpath
  intro hash hhash
  unfold transferItem transferTree writtenFile at *
  unfold transferResult at h
  cases hfetch : fetchPlaintext crypto item t with
  | error e => rw [hfetch] at h; cases h
  | ok plaintext =>
    rw [hfetch] at h
    cases hwrite : t.write with
    -- only a whole write gives a result, and the entry then has the hash of what was written
    | written mtime =>
      rw [hwrite] at h
      obtain rfl := Except.ok.inj h
      simp only [transferResult, hfetch, hwrite, recordTransfer, syncedHash_upsert] at hhash
      simp only [bytesAt_write, Option.map_some]
      exact hhash
    | _ => rw [hwrite] at h; cases h

/-- A transfer that fails before it has written anything leaves the file. -/
theorem transferTree_of_whole {e : SyncError} (hwhole : t.write.Whole)
    (h : transferResult crypto item t = .error e) (tree : ContentTree) :
    transferTree crypto tree item t = tree := by
  unfold transferTree writtenFile
  unfold transferResult at h
  cases hfetch : fetchPlaintext crypto item t with
  | error e => rfl
  | ok plaintext =>
    rw [hfetch] at h
    cases hwrite : t.write with
    | mkdirFails message => rfl
    | writeFails message left =>
      cases left with
      | none => rfl
      | some left => rw [hwrite] at hwhole; exact hwhole.elim
    | statFails message mtime => rw [hwrite] at hwhole; exact hwhole.elim
    | written mtime => rw [hwrite] at h; cases h

variable {now : Nat} {replies : Nat → ChunkReply} {items : List PullItem}

/-- Downloads of which none leaves a file that is not recorded. -/
theorem pullPhase_accounts (h : Accounts crypto path before d)
    (hwhole : ∀ item t, Delivers replies items item t → item.path = path →
      t.write.Whole ∨ ∃ w, transferResult crypto item t = .ok w) :
    Accounts crypto path before (pullPhase crypto now replies d items) := by
  refine pullPhase_inv (P := Accounts crypto path before) ?_ ?_ ?_ h
  · exact fun d item reason _ hd => hd.congr rfl rfl
  · exact fun d item message _ hd => hd.congr (syncedHash_markForbidden ..) rfl
  · intro d item t hdelivers hd
    by_cases hpath : item.path = path
    · cases hresult : transferResult crypto item t with
      | ok w => exact .inr (transferItem_of_ok hpath hresult)
      | error e =>
        -- nothing was written
        have hnone : t.write.Whole := by
          rcases hwhole item t hdelivers hpath with hnone | ⟨w, hok⟩
          · exact hnone
          · rw [hresult] at hok; cases hok
        refine hd.congr (syncedHash_congr ?_) ?_
        · rw [transferItem_of_error hresult]
        · rw [transferItem, transferTree_of_whole hnone hresult]
    · exact hd.congr (transferItem_of_ne hpath).1 (transferItem_of_ne hpath).2

/-- Downloads of which none goes through. -/
theorem pullPhase_kept (h : Kept path before d.state)
    (hfails : ∀ item t, Delivers replies items item t → item.path = path →
      ∃ e, transferResult crypto item t = .error e) :
    Kept path before (pullPhase crypto now replies d items).state := by
  refine pullPhase_inv (P := fun d : Device => Kept path before d.state) ?_ ?_ ?_ h
  · exact fun d item reason _ hd => hd
  · exact fun d item message _ hd => hd.trans (Kept.markForbidden _ _ _ _)
  · intro d item t hdelivers hd
    by_cases hpath : item.path = path
    · obtain ⟨e, hresult⟩ := hfails item t hdelivers hpath
      refine hd.trans (Kept.of_eq ?_)
      rw [transferItem_of_error hresult]
    · exact fun hash hhash => hd hash ((transferItem_of_ne hpath).1.symm.trans hhash)

/-- A path that is asked for once gets one transfer. -/
theorem Delivers.unique {item' : PullItem} {t' : Transfer} (honce : AtMostOnce PullItem.path path items)
    (h : Delivers replies items item t) (h' : Delivers replies items item' t')
    (hpath : item.path = path) (hpath' : item'.path = path) : t = t' ∧ item = item' := by
  obtain ⟨⟨chunk, k⟩, hx, hitem, hreply⟩ := h
  obtain ⟨⟨chunk', k'⟩, hx', hitem', hreply'⟩ := h'
  have hchunks : (Chunks.chunks (MAX_BATCH - 1) items)[k]? = some chunk :=
    List.mk_mem_zipIdx_iff_getElem?.mp hx
  have hchunks' : (Chunks.chunks (MAX_BATCH - 1) items)[k']? = some chunk' :=
    List.mk_mem_zipIdx_iff_getElem?.mp hx'
  rw [AtMostOnce, ← Chunks.flatten_chunks (MAX_BATCH - 1) items, List.pairwise_flatten] at honce
  obtain ⟨hwithin, hacross⟩ := honce
  -- both are in the same chunk
  obtain rfl : k = k' := by
    obtain ⟨hk, rfl⟩ := List.getElem?_eq_some_iff.mp hchunks
    obtain ⟨hk', rfl⟩ := List.getElem?_eq_some_iff.mp hchunks'
    rcases Nat.lt_trichotomy k k' with hlt | heq | hlt
    · exact absurd ⟨hpath, hpath'⟩
        (List.pairwise_iff_getElem.mp hacross k k' hk hk' hlt _ hitem _ hitem')
    · exact heq
    · exact absurd ⟨hpath', hpath⟩
        (List.pairwise_iff_getElem.mp hacross k' k hk' hk hlt _ hitem' _ hitem)
  obtain rfl := Option.some.inj (hchunks.symm.trans hchunks')
  have hone : AtMostOnce PullItem.path path chunk := hwithin chunk (List.mem_of_getElem? hchunks)
  -- and at the same place of it
  dsimp only at hreply hreply'
  cases hbatch : downloadBatch (replies k) chunk.length with
  | ok outcomes =>
    rw [hbatch] at hreply hreply'
    obtain ⟨i, hi⟩ := List.mem_iff_getElem?.mp hreply
    obtain ⟨j, hj⟩ := List.mem_iff_getElem?.mp hreply'
    rw [List.getElem?_zip_eq_some] at hi hj
    obtain rfl := hone.eq_of_getElem hi.1 hj.1 hpath hpath'
    obtain rfl := Option.some.inj (hi.1.symm.trans hj.1)
    have heq := Option.some.inj (hi.2.symm.trans hj.2)
    injection heq with heq
    exact ⟨heq, rfl⟩
  | error e =>
    rw [hbatch] at hreply hreply'
    cases e with
    | batchUnsupported =>
      obtain ⟨i, hi, hsingle⟩ := hreply
      obtain ⟨j, hj, hsingle'⟩ := hreply'
      rw [List.mk_mem_zipIdx_iff_getElem?] at hi hj
      obtain rfl := hone.eq_of_getElem hi hj hpath hpath'
      obtain rfl := Option.some.inj (hi.symm.trans hj)
      exact ⟨Except.ok.inj (hsingle.symm.trans hsingle'), rfl⟩
    | _ => exact hreply.elim

/-- The answers of which one is delivered. -/
theorem Delivers.whole (h : Delivers replies items item t) (hwhole : WritesWhole replies) :
    t.write.Whole := by
  obtain ⟨⟨chunk, k⟩, -, -, hreply⟩ := h
  dsimp only at hreply
  cases hbatch : downloadBatch (replies k) chunk.length with
  | ok outcomes =>
    rw [hbatch] at hreply
    unfold downloadBatch at hbatch
    split at hbatch
    · cases hbatch
    · next answered =>
      split at hbatch
      · cases hbatch
      · obtain rfl := Except.ok.inj hbatch
        exact hwhole k t (.inl ⟨_, answered, (List.of_mem_zip hreply).2⟩)
  | error e =>
    rw [hbatch] at hreply
    cases e with
    | batchUnsupported =>
      obtain ⟨i, -, hsingle⟩ := hreply
      exact hwhole k t (.inr ⟨i, hsingle⟩)
    | _ => exact hreply.elim

/-- The downloads of a pull: they are written whole, or the path is asked for once. -/
theorem pullPhase_records (h : Kept path before d.state)
    (hwrites : WritesWhole replies ∨ AtMostOnce PullItem.path path items) :
    Accounts crypto path before (pullPhase crypto now replies d items) := by
  rcases hwrites with hwhole | honce
  · exact pullPhase_accounts (.inl h) fun _ _ hdelivers _ => .inl (hdelivers.whole hwhole)
  by_cases hsome : ∃ item t w, Delivers replies items item t ∧ item.path = path ∧
      transferResult crypto item t = .ok w
  · obtain ⟨item, t, w, hdelivers, hpath, hok⟩ := hsome
    refine pullPhase_accounts (.inl h) fun item' t' hdelivers' hpath' => .inr ⟨w, ?_⟩
    obtain ⟨rfl, rfl⟩ := hdelivers.unique honce hdelivers' hpath hpath'
    exact hok
  · refine .inl (pullPhase_kept h fun item t hdelivers hpath => ?_)
    cases hresult : transferResult crypto item t with
    | error e => exact ⟨e, rfl⟩
    | ok w => exact absurd ⟨item, t, w, hdelivers, hpath, hresult⟩ hsome

end Downloads

/-! ## The pull half -/

section Pull

variable {env : PullEnv} {d : Device}

theorem Kept.applyRemoteTombstone (d : Device) (q : Str) (version : Nat) (removes : Str → Bool) :
    Kept path d.state (applyRemoteTombstone d q version removes).state := by
  unfold Sync.applyRemoteTombstone
  dsimp only
  cases d.state.files[q]? with
  | none => exact Kept.refl _
  | some ls =>
    dsimp only
    split
    · exact Kept.markTombstoned _ _ _
    · split
      · exact Kept.advanceDirtyToTombstone _ _ _
      · exact Kept.refl _

theorem Kept.offerFile (d : Device) (item : ManifestItem) (hash : Str) (reply : SidecarReply) :
    Kept path d.state (offerFile d item hash reply).1.state := by
  unfold Sync.offerFile
  cases d.state.files[item.path]? with
  | none =>
    dsimp only
    split
    · refine Kept.of_eq ?_
      unfold LocalSyncState.noteKnown
      dsimp only
      split <;> rfl
    · exact Kept.refl _
  | some ls =>
    dsimp only
    split <;> exact Kept.refl _

/-- The loop over the manifest records nothing. -/
theorem Kept.manifestLoop (env : PullEnv) (d : Device) (items : List ManifestItem) :
    Kept path d.state (manifestLoop env d items).1.state := by
  induction items generalizing d with
  | nil => exact Kept.refl _
  | cons item rest ih =>
    have hrow : Kept path d.state (applyRow env d item).1.state := by
      unfold applyRow
      dsimp only
      split
      · exact Kept.applyRemoteTombstone { d with state := d.state.clearForbidden item.path } _ _ _
      · split
        · exact Kept.refl _
        · exact Kept.offerFile { d with state := d.state.clearForbidden item.path } _ _ _
    unfold Sync.manifestLoop
    split
    · exact ih d
    · split
      · exact Kept.refl _
      · exact hrow.trans (ih _)

/-- What the loop wants to download are rows of the manifest, in their order. -/
theorem manifestLoop_pulls (env : PullEnv) (d : Device) (items : List ManifestItem) :
    ((manifestLoop env d items).2.1.map (·.path)).Sublist
      ((items.filter (!·.deleted)).map (·.path)) := by
  induction items generalizing d with
  | nil => exact List.Sublist.refl _
  | cons item rest ih =>
    have hskip : ((rest.filter (!·.deleted)).map (·.path)).Sublist
        (((item :: rest).filter (!·.deleted)).map (·.path)) :=
      (List.Sublist.filter _ (List.sublist_cons_self item rest)).map _
    unfold manifestLoop
    split
    · exact (ih d).trans hskip
    · split
      · exact List.nil_sublist _
      · -- a row asks for a download of its own path, and only if it is not deleted
        have hwanted : (applyRow env d item).2 = none ∨ item.deleted = false ∧
            ∃ wanted, (applyRow env d item).2 = some wanted ∧ wanted.path = item.path := by
          unfold applyRow
          dsimp only
          split
          · exact .inl rfl
          next hdeleted =>
          rw [Bool.not_eq_true] at hdeleted
          split
          · exact .inl rfl
          · unfold offerFile
            split
            · split
              · exact .inl rfl
              · exact .inr ⟨hdeleted, _, rfl, rfl⟩
            · split
              · exact .inl rfl
              · exact .inr ⟨hdeleted, _, rfl, rfl⟩
        dsimp only
        rcases hwanted with hnone | ⟨hdeleted, wanted, hsome, hpath⟩
        · rw [hnone]
          exact (ih _).trans hskip
        · rw [hsome, List.filter_cons_of_pos (by simp [hdeleted])]
          simp only [Option.toList_some, List.singleton_append, List.map_cons, hpath]
          exact (ih _).cons_cons _

/-- A path that the manifest lists once is downloaded once: what is retried is not listed. -/
theorem atMostOnce_retries {pulls : List PullItem} (st : LocalSyncState)
    (h : AtMostOnce PullItem.path path pulls) :
    AtMostOnce PullItem.path path (withQuarantinedRetries pulls st) := by
  refine List.pairwise_append.mpr ⟨?_, h, ?_⟩
  · -- the quarantined paths differ
    rw [List.pairwise_map]
    refine (Std.ExtTreeMap.distinct_keys_toList.sublist List.filter_sublist).imp ?_
    rintro ⟨p, q⟩ ⟨p', q'⟩ hne ⟨rfl, hp'⟩
    exact hne (Std.LawfulEqCmp.compare_eq_iff_eq.mpr hp'.symm)
  · rintro a ha b hb ⟨hapath, hbpath⟩
    obtain ⟨⟨p, q⟩, hmem, rfl⟩ := List.mem_map.mp ha
    have hfresh := (List.mem_filter.mp hmem).2
    simp only [Bool.not_eq_true', List.contains_eq_mem, decide_eq_false_iff_not] at hfresh
    exact hfresh (List.mem_map.mpr ⟨b, hb, hbpath.trans hapath.symm⟩)

/-- Taking a path back forgets its entry. -/
theorem Accounts.revoke {before : LocalSyncState} (h : Accounts crypto path before d) (now : Nat)
    (removes : Str → Bool) (q : Str) : Accounts crypto path before (revoke now removes d q) := by
  by_cases hq : q = path
  · subst hq
    refine .inl (Kept.of_none ?_)
    rw [Sync.revoke, TreeMap.get_erase, if_pos rfl]
  · refine h.congr (syncedHash_congr ?_) ?_
    · simp only [Sync.revoke, LocalSyncState.markForbidden, TreeMap.get_erase, TreeMap.get_modify,
        if_neg hq]
    · unfold Sync.revoke bytesAt ContentTree.removeFile
      split
      · rw [TreeMap.get_erase, if_neg hq]
      · rfl

theorem Accounts.revoked {before : LocalSyncState} (h : Accounts crypto path before d)
    (manifestPaths : List Str) (rules : IgnoreRules) (now : Nat) (removes : Str → Bool) :
    Accounts crypto path before (applyRevocations d manifestPaths rules now removes) :=
  Fold.foldl_inv (P := Accounts crypto path before) (fun _ q _ hd => hd.revoke now removes q) h

/-- The state when the manifest is drained: only flags are changed. -/
theorem Kept.beforePull (crypto : Crypto) (env : PullEnv) (d : Device) :
    Kept path d.state (beforePull crypto env d).state := by
  have hget := refreshDirty_get crypto d.state d.state env.rules d.tree path
  unfold Sync.beforePull
  cases hseen : d.tree[path]?.bind (seen crypto d.state env.rules path) with
  | none => exact Kept.of_eq (by rw [hget, hseen])
  | some s =>
    refine Kept.of_map (f := fun fs => { fs with dirty := s.dirty }) ?_ (fun _ => rfl) fun _ h => h
    rw [hget, hseen]

/-- The pull half: what it records is what it leaves on disk. -/
theorem pullHalf_records
    (hwrites : WritesWhole env.chunks ∨ ∀ seq items, env.manifest = .ok (seq, items) →
      AtMostOnce ManifestItem.path path (items.filter (!·.deleted))) :
    Accounts crypto path d.state (pullHalf crypto env d).1 := by
  unfold pullHalf
  dsimp only
  have hbefore := @Kept.beforePull path crypto env d
  -- before the manifest is there nothing is recorded
  cases hmanifest : env.manifest with
  | error e => exact .inl hbefore
  | ok rows =>
    obtain ⟨seq, items⟩ := rows
    have hloop := hbefore.trans (Kept.manifestLoop env (beforePull crypto env d) items)
    have hpulls := manifestLoop_pulls env (beforePull crypto env d) items
    dsimp only
    generalize manifestLoop env (beforePull crypto env d) items = loop at hloop hpulls ⊢
    obtain ⟨d', pulls, error⟩ := loop
    cases error with
    | some e => exact .inl hloop
    | none =>
      -- the downloads are for different paths if the rows are, the retries included
      have hforgot : Kept path d.state (forgetUnpullable d'.state env.rules) := hloop
      have hphase : Accounts crypto path d.state (pullPhase crypto env.now env.chunks
          { d' with state := forgetUnpullable d'.state env.rules }
          (withQuarantinedRetries pulls (forgetUnpullable d'.state env.rules))) := by
        refine pullPhase_records hforgot (hwrites.imp_right fun honce => atMostOnce_retries _ ?_)
        exact (honce seq items hmanifest).of_sublist hpulls
      unfold afterPull
      dsimp only
      generalize pullPhase crypto env.now env.chunks _ _ = phase at hphase ⊢
      split
      · have hmoved : Accounts crypto path d.state { phase with state := { phase.state with
            lastServerSeq := nextHighWater phase.state.lastServerSeq (some seq) } } :=
          hphase.of_files rfl rfl
        exact (hmoved.revoked (items.map (·.path)) env.rules env.now env.removes).of_files rfl rfl
      · exact hphase.of_files rfl rfl

end Pull

/-! ## The push half -/

section Push

variable {env : PushEnv} {d : Device}

/-- A path at which a sidecar may be written. -/
def SidecarPath (path : Str) : Prop :=
  isUnderConflictsDir path = true ∨ ∃ q ts cipherHash, path = conflictRelPath q ts cipherHash

/-- A sidecar is written elsewhere. -/
theorem bytesAt_sidecar (hpath : ¬ SidecarPath path) (tree : ContentTree) (q : Str) (data : Bytes)
    (cipherHash : Str) (reply : SidecarReply) :
    bytesAt (writeConflictSidecar tree q data cipherHash reply) path = bytesAt tree path := by
  unfold writeConflictSidecar
  split
  · rfl
  · exact bytesAt_write_of_ne (fun heq => hpath (.inr ⟨q, _, _, heq.symm⟩)) ..

/-- What the user does to one file is not done to another. -/
theorem bytesAt_editFile_of_ne {q : Str} (hne : q ≠ path) (tree : ContentTree) (file : Option DiskFile) :
    bytesAt (editFile tree q file) path = bytesAt tree path := by
  unfold editFile bytesAt
  split
  · rw [TreeMap.get_insert, if_neg hne]
  · rw [TreeMap.get_erase, if_neg hne]

/-- An error leaves the entries. -/
theorem recordPushError_files (st : LocalSyncState) (q : Str) (e : SyncError) :
    (recordPushError st q e).files = st.files := by
  unfold recordPushError
  split <;> rfl

/-- A download that answers a conflict: it records what it has written, or nothing. -/
theorem downloadAndWrite_records (d : Device) (item : PullItem) (reply : Except SyncError Transfer)
    (hpath : item.path = path) :
    Accounts crypto path d.state (downloadAndWrite crypto d item reply).1 := by
  unfold downloadAndWrite
  cases reply with
  | error e => exact .inl (Kept.refl _)
  | ok t =>
    dsimp only
    cases hresult : transferResult crypto item t with
    | error e => exact .inl (Kept.refl _)
    | ok w =>
      have hok := transferItem_of_ok (d := d) hpath hresult
      simp only [transferItem, recordTransfer, hresult] at hok
      exact .inr hok

theorem downloadAndWrite_of_ne {item : PullItem} (hne : item.path ≠ path) (d : Device)
    (reply : Except SyncError Transfer) :
    syncedHash (downloadAndWrite crypto d item reply).1.state path = syncedHash d.state path ∧
      bytesAt (downloadAndWrite crypto d item reply).1.tree path = bytesAt d.tree path := by
  unfold downloadAndWrite
  cases reply with
  | error e => exact ⟨rfl, rfl⟩
  | ok t =>
    have hother := @transferItem_of_ne crypto path d item t hne
    dsimp only
    cases hresult : transferResult crypto item t with
    | error e =>
      simp only [transferItem, recordTransfer, hresult] at hother
      exact ⟨rfl, hother.2⟩
    | ok w =>
      simp only [transferItem, recordTransfer, hresult] at hother
      exact hother

/-- A conflict at another path leaves the file and what is recorded of it. -/
theorem handlePushConflict_of_ne {q : Str} (hne : q ≠ path) (hpath : ¬ SidecarPath path) (d : Device)
    (remoteVersion : Option Nat) (remoteCipherHash : Option Str) (download : Except SyncError Transfer)
    (reply : SidecarReply) :
    syncedHash (handlePushConflict crypto d q remoteVersion remoteCipherHash download reply).state path =
        syncedHash d.state path ∧
      bytesAt (handlePushConflict crypto d q remoteVersion remoteCipherHash download reply).tree path =
        bytesAt d.tree path := by
  -- the pull of the other path writes to that path only
  have hpull : ∀ tree cipherHash, bytesAt tree path = bytesAt d.tree path →
      syncedHash (downloadAndWrite crypto { d with tree }
          { path := q, cipherHash, version := remoteVersion.getD 0 } download).1.state path =
        syncedHash d.state path ∧
      bytesAt (downloadAndWrite crypto { d with tree }
          { path := q, cipherHash, version := remoteVersion.getD 0 } download).1.tree path =
        bytesAt d.tree path := by
    intro tree cipherHash htree
    obtain ⟨hstate, hwritten⟩ := @downloadAndWrite_of_ne crypto path
      { path := q, cipherHash, version := remoteVersion.getD 0 } hne { d with tree } download
    exact ⟨hstate, hwritten.trans htree⟩
  unfold handlePushConflict
  dsimp only
  cases d.tree.read q with
  | none =>
    cases remoteCipherHash with
    | none => exact ⟨rfl, rfl⟩
    | some cipherHash => exact hpull _ _ rfl
  | some localBytes =>
    cases remoteCipherHash with
    | none => exact ⟨rfl, bytesAt_sidecar hpath ..⟩
    | some cipherHash => exact hpull _ _ (bytesAt_sidecar hpath ..)

/-- The push of another path. -/
theorem pushPath_of_ne {q : Str} (hne : q ≠ path) (hpath : ¬ SidecarPath path) :
    syncedHash (pushPath crypto env d q).state path = syncedHash d.state path ∧
      bytesAt (pushPath crypto env d q).tree path = bytesAt d.tree path := by
  unfold pushPath
  cases d.tree.read q with
  | none => exact ⟨syncedHash_congr (by rw [recordPushError_files]), rfl⟩
  | some blob =>
    dsimp only
    -- an edit during the upload is one of the other path
    have hedit : bytesAt ((env.meanwhile q).elim d.tree (editFile d.tree q)) path =
        bytesAt d.tree path := by
      cases env.meanwhile q with
      | none => rfl
      | some file => exact bytesAt_editFile_of_ne hne ..
    cases env.reply q with
    | failed e => exact ⟨syncedHash_congr (by rw [recordPushError_files]), hedit⟩
    | forbidden message => exact ⟨syncedHash_markForbidden .., hedit⟩
    | passedOver => exact ⟨rfl, hedit⟩
    | completed version contentHash => exact ⟨syncedHash_upsert_of_ne hne .., hedit⟩
    | conflict remoteVersion remoteCipherHash download =>
      obtain ⟨hstate, htree⟩ := @handlePushConflict_of_ne crypto path q hne hpath
        { d with tree := (env.meanwhile q).elim d.tree (editFile d.tree q) } remoteVersion remoteCipherHash
        download (env.sidecar q)
      exact ⟨hstate, htree.trans hedit⟩

/-- What a push records of a path: the bytes that it has uploaded, unless the server answers with others. -/
def pushedBytes (env : PushEnv) (path : Str) (before after : ContentTree) : Option Bytes :=
  match env.reply path with
  | .completed _ _ => bytesAt before path
  | _ => bytesAt after path

/-- The bytes that can be read are those on disk. -/
theorem bytesAt_of_read {tree : ContentTree} {blob : Bytes} (h : tree.read path = some blob) :
    bytesAt tree path = some blob := by
  unfold ContentTree.read at h
  obtain ⟨file, hfile, hread⟩ := Option.bind_eq_some_iff.mp h
  split at hread
  · rw [bytesAt, hfile, Option.map_some, Option.some.inj hread]
  · cases hread

/-- The push of the path itself. -/
theorem pushPath_self (env : PushEnv) (d : Device) :
    Kept path d.state (pushPath crypto env d path).state ∨
      Backs crypto path (pushedBytes env path d.tree (pushPath crypto env d path).tree)
        (pushPath crypto env d path).state := by
  unfold pushPath pushedBytes
  cases hread : d.tree.read path with
  | none => exact .inl (Kept.of_eq (by rw [recordPushError_files]))
  | some blob =>
    dsimp only
    generalize (env.meanwhile path).elim d.tree (editFile d.tree path) = tree
    cases env.reply path with
    | failed e => exact .inl (Kept.of_eq (by rw [recordPushError_files]))
    | forbidden message => exact .inl (Kept.markForbidden _ _ _ _)
    | passedOver => exact .inl (Kept.refl _)
    -- the hash is that of the bytes read before the upload, whatever is edited meanwhile
    | completed version contentHash =>
      refine .inr fun hash hhash => ?_
      simp only [finalizeUpload, syncedHash_upsert] at hhash
      simp only [bytesAt_of_read hread, Option.map_some]
      exact hhash
    | conflict remoteVersion remoteCipherHash download =>
      dsimp only
      unfold handlePushConflict
      dsimp only
      split
      · exact .inl (Kept.refl _)
      · exact downloadAndWrite_records { d with tree := _ }
          { path, cipherHash := _, version := remoteVersion.getD 0 } download rfl

/-- The pushes of other paths. -/
theorem pushPaths_of_ne (hpath : ¬ SidecarPath path) {paths : List Str} (hnot : path ∉ paths) (d : Device) :
    syncedHash (paths.foldl (pushPath crypto env) d).state path = syncedHash d.state path ∧
      bytesAt (paths.foldl (pushPath crypto env) d).tree path = bytesAt d.tree path := by
  refine Fold.foldl_inv (P := fun d' : Device => syncedHash d'.state path = syncedHash d.state path ∧
    bytesAt d'.tree path = bytesAt d.tree path) (fun d' q hq hd => ?_) ⟨rfl, rfl⟩
  have hne : q ≠ path := fun heq => hnot (heq ▸ hq)
  obtain ⟨hstate, htree⟩ := @pushPath_of_ne crypto path env d' q hne hpath
  exact ⟨hstate.trans hd.1, htree.trans hd.2⟩

/-- A push sends a path at most once. -/
theorem nodup_pushed (env : PushEnv) (st : LocalSyncState) (scan : List ScannedFile) :
    (pushed env st scan).Nodup := by
  unfold pushed planPush
  refine List.Pairwise.filter _ ?_
  split
  · exact List.nodup_nil
  · refine List.Pairwise.filter _ (Std.ExtTreeSet.distinct_toList.imp fun {a b} hne => ?_)
    rintro rfl
    exact hne Std.ReflCmp.compare_self

/-- Pushing a list of paths. -/
theorem pushPhase_records (hpath : ¬ SidecarPath path) {paths : List Str} (hnodup : paths.Nodup)
    (d : Device) :
    Kept path d.state (pushPhase crypto env d paths).state ∨
      Backs crypto path (pushedBytes env path d.tree (pushPhase crypto env d paths).tree)
        (pushPhase crypto env d paths).state := by
  unfold pushPhase
  by_cases hmem : path ∈ paths
  · obtain ⟨earlier, later, rfl⟩ := List.append_of_mem hmem
    obtain ⟨-, hlater, hdisjoint⟩ := List.nodup_append.mp hnodup
    have hearlier : path ∉ earlier := fun h => hdisjoint path h path List.mem_cons_self rfl
    rw [List.foldl_append, List.foldl_cons]
    -- the path itself is pushed between others
    have hfirst := @pushPaths_of_ne crypto path env hpath earlier hearlier
      { d with state := d.state.retainPushFailures (earlier ++ path :: later) }
    generalize earlier.foldl (pushPath crypto env) _ = d₁ at hfirst ⊢
    have hlast := @pushPaths_of_ne crypto path env hpath later (List.nodup_cons.mp hlater).1
      (pushPath crypto env d₁ path)
    have hself := @pushPath_self crypto path env d₁
    generalize pushPath crypto env d₁ path = d₂ at hself hlast ⊢
    generalize later.foldl (pushPath crypto env) d₂ = d₃ at hlast ⊢
    refine hself.imp (fun hkept hash hhash => ?_) fun hbacks hash hhash => ?_
    · exact hfirst.1 ▸ hkept hash (hlast.1 ▸ hhash)
    · have hbytes := hbacks hash (hlast.1 ▸ hhash)
      unfold pushedBytes at hbytes ⊢
      split at hbytes
      · rw [← hbytes, hfirst.2]
      · rw [← hbytes, hlast.2]
  · refine .inl fun hash hhash => ?_
    exact (@pushPaths_of_ne crypto path env hpath paths hmem
      { d with state := d.state.retainPushFailures paths }).1 ▸ hhash

/-- The scan before the push changes no hash, and brings up no file at the path. -/
theorem scanned_kept (hpath : ¬ SidecarPath path) (rules : IgnoreRules) (d : Device) :
    Kept path d.state (scanned crypto env rules d).1.state ∧
      ∀ bytes, bytesAt (scanned crypto env rules d).1.tree path = some bytes →
        bytesAt d.tree path = some bytes := by
  constructor
  · have hget := applyScan_get crypto d.state d.state rules d.tree path
    unfold scanned
    cases hseen : d.tree[path]?.bind (seen crypto d.state rules path) with
    | none => exact Kept.of_eq (by rw [hget, hseen])
    | some s =>
      refine Kept.of_map (f := fun fs => { fs with
        mtime := s.mtime, size := s.size, localPlainHash := s.localPlainHash, dirty := s.dirty })
        ?_ (fun _ => rfl) fun _ h => h
      rw [hget, hseen]
  · intro bytes hbytes
    obtain ⟨file, hfile, rfl⟩ := Option.map_eq_some_iff.mp hbytes
    have hunder : isUnderConflictsDir path = false :=
      Bool.eq_false_iff.mpr fun hunder => hpath (.inl hunder)
    rw [bytesAt, get_of_relocateSidecars_get hunder hfile, Option.map_some]

theorem Kept.deletePath (env : PushEnv) (st : LocalSyncState) (q : Str) :
    Kept path st (deletePath env st q) := by
  unfold Sync.deletePath
  split
  · exact Kept.markTombstoned _ _ _
  · exact Kept.refl _
  · exact Kept.markForbidden _ _ _ _
  · exact Kept.refl _

/-- The push half: what it records of a path are the bytes that it has uploaded, or downloaded. -/
theorem pushHalf_records (hpath : ¬ SidecarPath path) (rules : IgnoreRules) (d : Device) :
    Kept path d.state (pushHalf crypto env rules d).1.state ∨
      Backs crypto path (pushedBytes env path d.tree (pushHalf crypto env rules d).1.tree)
        (pushHalf crypto env rules d).1.state := by
  unfold pushHalf
  dsimp only
  obtain ⟨hscanned, hfiles⟩ := @scanned_kept crypto path env hpath rules d
  generalize scanned crypto env rules d = result at hscanned hfiles ⊢
  obtain ⟨d₁, scan⟩ := result
  have hphase := @pushPhase_records crypto path env hpath _ (nodup_pushed env d₁.state scan) d₁
  generalize pushPhase crypto env d₁ (pushed env d₁.state scan) = d₂ at hphase ⊢
  -- the deletions that follow record nothing
  have hdeleted : Kept path d₂.state ((applyDeleteGuard (locallyDeletedPaths d₂.state scan rules)
      env.allowBulkDelete).1.foldl (fun st x => deletePath env st x.1) d₂.state) :=
    Fold.foldl_inv (P := Kept path d₂.state)
      (fun st x _ hst => hst.trans (Kept.deletePath env st x.1)) (Kept.refl _)
  rcases hphase with hkept | hbacks
  · exact .inl (hscanned.trans (hkept.trans hdeleted))
  · refine .inr fun hash hhash => ?_
    have hbytes := hbacks hash (hdeleted hash hhash)
    unfold pushedBytes at hbytes ⊢
    split at hbytes
    · obtain ⟨bytes, hd₁, hsha⟩ := Option.map_eq_some_iff.mp hbytes
      rw [hfiles bytes hd₁, Option.map_some, hsha]
    · exact hbytes

end Push

/-! ## Any work -/

section Works

variable {d : Device}

/-- The work does not go on writing to the file of the path once it has recorded it: downloads are written
    whole, or that of the path is asked for once, and no sidecar is written there. -/
def Work.WritesOnce (path : Str) : Work → Prop
  | .pull env => WritesWhole env.chunks ∨ ∀ seq items, env.manifest = .ok (seq, items) →
      AtMostOnce ManifestItem.path path (items.filter (!·.deleted))
  | .push _ _ => ¬ SidecarPath path
  | .fetch _ chunks paths => WritesWhole chunks ∨ AtMostOnce id path paths
  | .release _ _ => True

/-- The bytes that a piece of work has recorded of a path, if it has recorded any: those that it has left
    on disk, but those that it has found there if it has uploaded them. -/
def Work.measured (path : Str) (before after : ContentTree) : Work → Option Bytes
  | .push env _ => pushedBytes env path before after
  | _ => bytesAt after path

/-- Fetching: what it records is what it leaves on disk. -/
theorem fetchKnown_records (now : Nat) (chunks : Nat → ChunkReply) (paths : List Str)
    (hwrites : WritesWhole chunks ∨ AtMostOnce id path paths) :
    Accounts crypto path d.state (fetchKnown crypto now chunks d paths) := by
  unfold fetchKnown
  dsimp only
  refine Fold.foldl_inv (P := Accounts crypto path d.state) (fun d' q _ hd => ?_) ?_
  · split
    · exact hd.of_files rfl rfl
    · exact hd
  · refine pullPhase_records (Kept.refl _) (hwrites.imp_right fun honce => ?_)
    refine List.pairwise_filterMap.mpr (honce.imp fun {q q'} hne item hitem item' hitem' hboth => ?_)
    obtain ⟨known, -, rfl⟩ := Option.map_eq_some_iff.mp hitem
    obtain ⟨known', -, rfl⟩ := Option.map_eq_some_iff.mp hitem'
    exact hne hboth

/-- Releasing one path: an entry is forgotten, and none is recorded. -/
theorem releaseLocal_kept (removes : Str → Bool) (q : Str) :
    Kept path d.state (releaseLocal removes d [q]).state := by
  simp only [releaseLocal, List.foldl_cons, List.foldl_nil]
  split
  · cases hrelease : d.state.releaseLocal q with
    | none => exact Kept.refl _
    | some st =>
      unfold LocalSyncState.releaseLocal at hrelease
      split at hrelease
      · cases hrelease
      · split at hrelease
        · cases hrelease
        · obtain rfl := Option.some.inj hrelease
          by_cases hq : q = path
          · refine Kept.of_none ?_
            simp only [TreeMap.get_erase, if_pos hq]
          · refine Kept.of_eq ?_
            simp only [TreeMap.get_erase, if_neg hq]
  · exact Kept.refl _

/-- What a piece of work records of a path are the bytes that it has downloaded or uploaded. -/
theorem Work.records (work : Work) (honce : work.WritesOnce path) :
    Kept path d.state (work.run crypto d).1.state ∨
      Backs crypto path (work.measured path d.tree (work.run crypto d).1.tree)
        (work.run crypto d).1.state := by
  cases work with
  | pull env =>
    have hpull := @pullHalf_records crypto path env d honce
    unfold Work.run Work.measured
    dsimp only
    generalize pullHalf crypto env d = result at hpull ⊢
    obtain ⟨d', error⟩ := result
    cases error <;> exact hpull
  | push env rules => exact pushHalf_records honce rules d
  | fetch now chunks paths =>
    unfold Work.run Work.measured
    dsimp only
    split
    · exact .inl (Kept.refl _)
    · exact fetchKnown_records now chunks paths honce
  | release removes q => exact .inl (releaseLocal_kept removes q)

end Works

end TeamClu.Sync
