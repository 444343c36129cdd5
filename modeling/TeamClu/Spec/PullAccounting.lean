import TeamClu.ForStd.Fold
import TeamClu.Native.SyncPull

/-!
# Every offered file leaves a record

The cursor moves past whatever a pull was offered, so each item must be applied, quarantined or
refused (`Accounted`).  An item has a record after `pull_phase` exactly when it had one before or the
answer to one of its chunks left one (`Settles`): the batch call must not have failed as a whole, and
the outcome of the item must not be a conflict (`pull_accounts`).
-/

namespace TeamClu.Sync

/-- The item is applied and clean, or quarantined as it was offered, or refused. -/
def Accounted (st : LocalSyncState) (item : PullItem) : Prop :=
  (st.files[item.path]?.any fun f => f.syncedVersion == item.version && !f.dirty) ∨
    (st.quarantined[item.path]?.any fun q =>
      q.cipherHash == item.cipherHash && q.version == item.version) ∨
    st.forbidden.contains item.path

instance (st : LocalSyncState) (item : PullItem) : Decidable (Accounted st item) :=
  inferInstanceAs (Decidable (_ ∨ _ ∨ _))

/-- The outcome is a conflict. -/
def BatchItemOutcome.isConflict {T : Type} : BatchItemOutcome T → Bool
  | conflict _ _ => true
  | _ => false

/-- The answer to the chunk leaves a record of the item: the per-file calls leave one of every item,
    the batch call of every item whose outcome is no conflict. -/
def Settles (reply : ChunkReply) (chunk : List PullItem) (item : PullItem) : Prop :=
  match downloadBatch reply chunk.length with
  | .ok outcomes => ∃ outcome, (item, outcome) ∈ chunk.zip outcomes ∧ outcome.isConflict = false
  | .error .batchUnsupported => item ∈ chunk
  | .error _ => False

/-! ## Single records -/

section

variable {st : LocalSyncState} {item : PullItem}

/-- What is recorded of other paths does not matter. -/
theorem accounted_congr {st' : LocalSyncState} (hfiles : st'.files[item.path]? = st.files[item.path]?)
    (hquarantined : st'.quarantined[item.path]? = st.quarantined[item.path]?)
    (hforbidden : st'.forbidden.contains item.path = st.forbidden.contains item.path) :
    Accounted st' item ↔ Accounted st item := by
  unfold Accounted
  rw [hfiles, hquarantined, hforbidden]

theorem accounted_quarantine (reason : Str) :
    Accounted (st.quarantine item.path item.cipherHash item.version reason) item := by
  refine .inr (.inl ?_)
  simp [LocalSyncState.quarantine]

theorem accounted_markForbidden (reason : Str) (now : Nat) :
    Accounted (st.markForbidden item.path reason now) item := by
  refine .inr (.inr ?_)
  simp [LocalSyncState.markForbidden]

theorem accounted_upsert (cipherHash plainHash localHash : Str) (mtime size : Nat) :
    Accounted (st.upsert item.path item.version cipherHash plainHash localHash mtime size) item := by
  refine .inl ?_
  simp [LocalSyncState.upsert]

variable {path : Str}

theorem accounted_quarantine_of_ne (hne : path ≠ item.path) (cipherHash reason : Str) (version : Nat) :
    Accounted (st.quarantine path cipherHash version reason) item ↔ Accounted st item := by
  refine accounted_congr rfl ?_ rfl
  rw [LocalSyncState.quarantine, TreeMap.get_insert, if_neg hne]

theorem accounted_markForbidden_of_ne (hne : path ≠ item.path) (reason : Str) (now : Nat) :
    Accounted (st.markForbidden path reason now) item ↔ Accounted st item := by
  refine accounted_congr ?_ ?_ ?_
  · rw [LocalSyncState.markForbidden, TreeMap.get_modify, if_neg hne]
  · rw [LocalSyncState.markForbidden, TreeMap.get_erase, if_neg hne]
  · simp [LocalSyncState.markForbidden, Std.ExtTreeMap.contains_insert, hne]

theorem accounted_upsert_of_ne (hne : path ≠ item.path) (version : Nat)
    (cipherHash plainHash localHash : Str) (mtime size : Nat) :
    Accounted (st.upsert path version cipherHash plainHash localHash mtime size) item ↔
      Accounted st item := by
  refine accounted_congr ?_ ?_ rfl
  · rw [LocalSyncState.upsert, TreeMap.get_insert, if_neg hne]
  · rw [LocalSyncState.upsert, TreeMap.get_erase, if_neg hne]

end

/-- A per-file call that is answered transfers the file and records how that ends. -/
theorem pullSingle_ok (crypto : Crypto) (d : Device) (item : PullItem) (t : Transfer) :
    pullSingle crypto d item (.ok t) =
      { state := recordTransfer d.state item (transferResult crypto item t)
        tree := transferTree crypto d.tree item t } := by
  cases hresult : transferResult crypto item t with
  | error e => simp only [pullSingle, downloadAndWrite, hresult, recordTransfer]
  | ok w => simp only [pullSingle, downloadAndWrite, hresult, recordTransfer]

/-! ## Records of one chunk -/

section

variable {crypto : Crypto} {now : Nat} {item other : PullItem}

/-- The end of a transfer leaves a record of its own item. -/
private theorem recordTransfer_iff (hsame : other.path = item.path → other = item)
    (st : LocalSyncState) (result : Except SyncError WriteResult) :
    Accounted (recordTransfer st other result) item ↔ Accounted st item ∨ other = item := by
  by_cases hpath : other.path = item.path
  · obtain rfl := hsame hpath
    refine iff_of_true ?_ (.inr rfl)
    cases result with
    | ok w => exact accounted_upsert ..
    | error e => exact accounted_quarantine _
  · rw [or_iff_left fun heq => hpath (congrArg PullItem.path heq)]
    cases result with
    | ok w => exact accounted_upsert_of_ne hpath ..
    | error e => exact accounted_quarantine_of_ne hpath ..

/-- A refusal or an error leaves a record of its item, a conflict does not. -/
private theorem recordOutcome_iff (hsame : other.path = item.path → other = item)
    (st : LocalSyncState) (outcome : BatchItemOutcome Transfer) :
    Accounted (recordOutcome now st other outcome) item ↔
      Accounted st item ∨ (other = item ∧ match outcome with
        | .forbidden _ | .err _ _ => True
        | .ok _ | .conflict _ _ => False) := by
  by_cases hpath : other.path = item.path
  · obtain rfl := hsame hpath
    cases outcome with
    | ok t => simp [recordOutcome]
    | conflict v h => simp [recordOutcome]
    | forbidden message => simp [recordOutcome, accounted_markForbidden]
    | err status message => simp [recordOutcome, accounted_quarantine]
  · rw [or_iff_left fun h => hpath (congrArg PullItem.path h.1)]
    cases outcome with
    | ok t => rfl
    | conflict v h => rfl
    | forbidden message => exact accounted_markForbidden_of_ne hpath ..
    | err status message => exact accounted_quarantine_of_ne hpath ..

/-- A per-file call leaves a record of its item. -/
private theorem pullSingle_iff (hsame : other.path = item.path → other = item) (d : Device)
    (reply : Except SyncError Transfer) :
    Accounted (pullSingle crypto d other reply).state item ↔
      Accounted d.state item ∨ other = item := by
  cases reply with
  | error e => exact recordTransfer_iff hsame d.state (.error e)
  | ok t =>
    rw [pullSingle_ok]
    exact recordTransfer_iff hsame d.state _

/-- An item has a record after a chunk when it had one, or the chunk settles it. -/
theorem pullChunk_accounts {chunk : List PullItem}
    (hsame : ∀ other ∈ chunk, other.path = item.path → other = item) (d : Device)
    (reply : ChunkReply) :
    Accounted (pullChunk crypto now d chunk reply).state item ↔
      Accounted d.state item ∨ Settles reply chunk item := by
  unfold pullChunk Settles
  cases downloadBatch reply chunk.length with
  -- the batch failed: the chunk is pulled one by one only where it is not supported
  | error e =>
    cases e with
    | batchUnsupported =>
      rw [Fold.foldl_iff_exists (P := fun d : Device => Accounted d.state item)
        (S := fun x : PullItem × Nat => x.1 = item)]
      · refine or_congr_right ⟨?_, fun hmem => ?_⟩
        · rintro ⟨⟨other, i⟩, hx, rfl⟩
          exact List.fst_mem_of_mem_zipIdx hx
        · obtain ⟨i, hi⟩ := List.mem_iff_getElem?.mp hmem
          exact ⟨(item, i), List.mk_mem_zipIdx_iff_getElem?.mpr hi, rfl⟩
      · rintro d ⟨other, i⟩ hx
        exact pullSingle_iff (hsame other (List.fst_mem_of_mem_zipIdx hx)) d _
    | _ => exact (or_iff_left id).symm
  | ok outcomes =>
    -- the outcomes are recorded first, and then the transfers written
    have hchunk : ∀ x ∈ chunk.zip outcomes, x.1 ∈ chunk := fun x hx => (List.of_mem_zip hx).1
    have htarget : ∀ x ∈ targets (chunk.zip outcomes),
        (x.1, BatchItemOutcome.ok x.2) ∈ chunk.zip outcomes := by
      intro x hx
      obtain ⟨⟨other, outcome⟩, hmem, heq⟩ := List.mem_filterMap.mp hx
      cases outcome with
      | ok t => obtain rfl := Option.some.inj heq; exact hmem
      | _ => exact nomatch heq
    simp only
    rw [Fold.foldl_iff_exists (P := fun st => Accounted st item)
      (S := fun x : PullItem × Transfer => x.1 = item), Fold.foldl_iff_exists
      (P := fun st => Accounted st item) (S := fun x : PullItem × BatchItemOutcome Transfer =>
        x.1 = item ∧ match x.2 with
          | .forbidden _ | .err _ _ => True
          | .ok _ | .conflict _ _ => False), or_assoc]
    · -- an item is accounted for by its outcome, unless that is a conflict
      refine or_congr_right ⟨?_, ?_⟩
      · rintro (⟨⟨other, outcome⟩, hmem, rfl, houtcome⟩ | ⟨⟨other, t⟩, hmem, rfl⟩)
        · refine ⟨outcome, hmem, ?_⟩
          cases outcome with
          | conflict v h => exact houtcome.elim
          | _ => rfl
        · exact ⟨.ok t, htarget _ hmem, rfl⟩
      · rintro ⟨outcome, hmem, hconflict⟩
        cases outcome with
        | ok t => exact .inr ⟨(item, t), List.mem_filterMap.mpr ⟨(item, .ok t), hmem, rfl⟩, rfl⟩
        | conflict v h => exact nomatch hconflict
        | forbidden message => exact .inl ⟨(item, _), hmem, rfl, trivial⟩
        | err status message => exact .inl ⟨(item, _), hmem, rfl, trivial⟩
    · -- each step accounts for its own item
      rintro st ⟨other, outcome⟩ hx
      exact recordOutcome_iff (hsame other (hchunk _ hx)) st outcome
    · rintro st ⟨other, t⟩ hx
      exact recordTransfer_iff (hsame other (hchunk _ (htarget _ hx))) st _

end

/-! ## The phase -/

/-- Every item of the list is in one of the chunks, and the chunks hold no other. -/
theorem mem_of_mem_pullChunks {items : List PullItem} {x : List PullItem × Nat}
    (hx : x ∈ pullChunks items) {item : PullItem} (h : item ∈ x.1) : item ∈ items :=
  Chunks.mem_chunks.mp ⟨x.1, List.fst_mem_of_mem_zipIdx hx, h⟩

/-- A file that is quarantined is among the next downloads, as it was offered unless the manifest
    lists it again. -/
theorem mem_withQuarantinedRetries {st : LocalSyncState} {path : Str} {q : QuarantinedPull}
    (h : st.quarantined[path]? = some q) (listed : List PullItem) :
    path ∈ listed.map (·.path) ∨
      { path, cipherHash := q.cipherHash, version := q.version } ∈ withQuarantinedRetries listed st := by
  by_cases hlisted : path ∈ listed.map (·.path)
  · exact .inl hlisted
  · refine .inr (List.mem_append_left _ (List.mem_map.mpr ⟨(path, q), ?_, rfl⟩))
    refine List.mem_filter.mpr ⟨TreeMap.mem_toList.mpr h, ?_⟩
    simpa using hlisted

/-- After `pull_phase` an item has a record exactly when it had one before or the answer to one of
    its chunks settles it; and a quarantined file is downloaded again on the next tick. -/
theorem pull_accounts (crypto : Crypto) (now : Nat) (replies : Nat → ChunkReply) (d : Device)
    (items : List PullItem) (hsame : ∀ a ∈ items, ∀ b ∈ items, a.path = b.path → a = b) :
    (∀ item ∈ items, Accounted (pullPhase crypto now replies d items).state item ↔
      Accounted d.state item ∨ ∃ x ∈ pullChunks items, Settles (replies x.2) x.1 item) ∧
    ∀ (path : Str) (q : QuarantinedPull) (listed : List PullItem),
      (pullPhase crypto now replies d items).state.quarantined[path]? = some q →
      path ∈ listed.map (·.path) ∨
        { path, cipherHash := q.cipherHash, version := q.version } ∈
          withQuarantinedRetries listed (pullPhase crypto now replies d items).state := by
  refine ⟨fun item hitem => ?_, fun path q listed h => mem_withQuarantinedRetries h listed⟩
  refine Fold.foldl_iff_exists (P := fun d : Device => Accounted d.state item)
    (S := fun x : List PullItem × Nat => Settles (replies x.2) x.1 item) (fun d x hx => ?_) d
  exact pullChunk_accounts
    (fun other hother => hsame other (mem_of_mem_pullChunks hx hother) item hitem) d _

/-! ## A pull of one file -/

/-- SHA-256 of the one-byte files `a`, `b` and `c`, and some name for any other content; no blob is in
    an envelope. -/
def sampleCrypto : Crypto where
  sha256Hex
    | [97] => "ca978112ca1bbdcafac231b39a23dc4da786eff8147c4e72b9807785afee48bb".toList
    | [98] => "3e23e8160039594a33894f6564e1b1348bbd7a0088d42c4acb73eeaed59c009d".toList
    | [99] => "2e7d2c03a9507ae265ecf5b5356885a53393a2029d241394997265a1a25aefc6".toList
    | bytes => bytes.flatMap fun b => Nat.toDigits 10 b.toNat ++ ['.']
  decodeBlob := .ok

/-- Version 1 of a note whose content is `a`. -/
def noteItem : PullItem :=
  { path := "knowledge/n.md".toList, cipherHash := sampleCrypto.sha256Hex [97], version := 1 }

/-- The download of `a` is signed, and the file is written at second 7. -/
def noteArrives : ChunkReply :=
  { batch := .ok [.ok { blob := .ok [97], write := .written 7 }]
    single := fun _ => .error .batchUnsupported }

/-- The batch call fails as a whole. -/
def batchFails : ChunkReply :=
  { batch := .error (.internal "FC returned HTTP 500: database is down".toList)
    single := fun _ => .error .batchUnsupported }

/-- The batch call answers the item with a conflict. -/
def itemConflicts : ChunkReply :=
  { batch := .ok [.conflict none none], single := fun _ => .error .batchUnsupported }

private theorem pullChunks_noteItem : pullChunks [noteItem] = [([noteItem], 0)] := by
  simp [pullChunks, Chunks.chunks_cons]

/-- A file that arrives has a record. -/
theorem pull_accounts_noteItem :
    Accounted (pullPhase sampleCrypto 9 (fun _ => noteArrives) {} [noteItem]).state noteItem := by
  have hsame : ∀ a ∈ [noteItem], ∀ b ∈ [noteItem], a.path = b.path → a = b := by
    intro a ha b hb _
    rw [List.mem_singleton.mp ha, List.mem_singleton.mp hb]
  refine ((pull_accounts sampleCrypto 9 (fun _ => noteArrives) {} [noteItem] hsame).1 noteItem
    (List.mem_singleton_self _)).mpr (.inr ⟨([noteItem], 0), ?_, ?_⟩)
  · rw [pullChunks_noteItem]
    exact List.mem_singleton_self _
  · exact ⟨_, List.mem_singleton_self _, rfl⟩

/-- A file that is offered is lost when the batch call fails, and when its outcome is a conflict. -/
theorem pull_loses_noteItem :
    ¬ Accounted (pullPhase sampleCrypto 9 (fun _ => batchFails) {} [noteItem]).state noteItem ∧
      ¬ Accounted (pullPhase sampleCrypto 9 (fun _ => itemConflicts) {} [noteItem]).state noteItem := by
  unfold pullPhase
  rw [pullChunks_noteItem]
  decide +kernel

end TeamClu.Sync
