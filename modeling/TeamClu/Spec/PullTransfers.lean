import TeamClu.Spec.PullAccounting

/-!
# The transfers of a pull

What `pull_phase` does is a sequence of three things: it quarantines an item, it refuses one, and it
carries out a transfer that was answered for one (`Delivers`).  What each of them keeps, the phase
keeps (`pullPhase_inv`).
-/

namespace TeamClu.Sync

/-- The transfer is answered for the item, in one of the chunks. -/
def Delivers (replies : Nat → ChunkReply) (items : List PullItem) (item : PullItem) (t : Transfer) :
    Prop :=
  ∃ x ∈ pullChunks items, item ∈ x.1 ∧
    match downloadBatch (replies x.2) x.1.length with
    | .ok outcomes => (item, .ok t) ∈ x.1.zip outcomes
    | .error .batchUnsupported => ∃ i, (item, i) ∈ x.1.zipIdx ∧ (replies x.2).single i = .ok t
    | .error _ => False

variable {crypto : Crypto} {now : Nat} {replies : Nat → ChunkReply} {items : List PullItem}

theorem Delivers.mem {item : PullItem} {t : Transfer} (h : Delivers replies items item t) :
    item ∈ items := by
  obtain ⟨x, hx, hitem, -⟩ := h
  exact mem_of_mem_pullChunks hx hitem

/-- Carry out a transfer and record how it ends. -/
def transferItem (crypto : Crypto) (d : Device) (item : PullItem) (t : Transfer) : Device where
  state := recordTransfer d.state item (transferResult crypto item t)
  tree := transferTree crypto d.tree item t

/-- The transfers of a batch, one after the other. -/
private theorem foldl_transferItem (ts : List (PullItem × Transfer)) (d : Device) :
    ts.foldl (fun d x => transferItem crypto d x.1 x.2) d =
      { state := ts.foldl (fun st x => recordTransfer st x.1 (transferResult crypto x.1 x.2)) d.state
        tree := ts.foldl (fun tree x => transferTree crypto tree x.1 x.2) d.tree } := by
  induction ts generalizing d with
  | nil => rfl
  | cons x ts ih => exact ih _

/-- What quarantining, refusing and transferring an item keep, the phase keeps. -/
theorem pullPhase_inv {P : Device → Prop}
    (hquarantine : ∀ d item reason, item ∈ items → P d →
      P { d with state := d.state.quarantine item.path item.cipherHash item.version reason })
    (hforbid : ∀ d item message, item ∈ items → P d →
      P { d with state := d.state.markForbidden item.path message now })
    (htransfer : ∀ d item t, Delivers replies items item t → P d → P (transferItem crypto d item t))
    {d : Device} (h : P d) : P (pullPhase crypto now replies d items) := by
  refine Fold.foldl_inv (fun d x hx hd => ?_) h
  have hmem : ∀ item ∈ x.1, item ∈ items := fun item => mem_of_mem_pullChunks hx
  have hone : ∀ item t, item ∈ x.1 → (match downloadBatch (replies x.2) x.1.length with
      | .ok outcomes => (item, .ok t) ∈ x.1.zip outcomes
      | .error .batchUnsupported => ∃ i, (item, i) ∈ x.1.zipIdx ∧ (replies x.2).single i = .ok t
      | .error _ => False) → ∀ d, P d → P (transferItem crypto d item t) :=
    fun item t hitem hreply d => htransfer d item t ⟨x, hx, hitem, hreply⟩
  unfold pullChunk
  cases hbatch : downloadBatch (replies x.2) x.1.length with
  | ok outcomes =>
    simp only [hbatch] at hone ⊢
    rw [← foldl_transferItem (targets (x.1.zip outcomes)) { d with state := _ }]
    refine Fold.foldl_inv (fun d y hy hd => ?_) ?_
    · obtain ⟨⟨item, outcome⟩, hpair, hsome⟩ := List.mem_filterMap.mp hy
      cases outcome with
      | ok t =>
        obtain rfl := Option.some.inj hsome
        exact hone item t (List.of_mem_zip hpair).1 hpair d hd
      | _ => cases hsome
    · refine Fold.foldl_inv (P := fun st => P { d with state := st }) (fun st y hy hst => ?_) hd
      obtain ⟨item, outcome⟩ := y
      have hitem := hmem item (List.of_mem_zip hy).1
      cases outcome with
      | ok t => exact hst
      | conflict version hash => exact hst
      | err status message => exact hquarantine { d with state := st } item _ hitem hst
      | forbidden message => exact hforbid { d with state := st } item message hitem hst
  | error e =>
    cases e with
    | batchUnsupported =>
      simp only [hbatch] at hone ⊢
      refine Fold.foldl_inv (fun d y hy hd => ?_) hd
      obtain ⟨item, i⟩ := y
      have hitem := List.fst_mem_of_mem_zipIdx hy
      cases hsingle : (replies x.2).single i with
      | error e =>
        dsimp only
        exact hquarantine d item e.toText (hmem item hitem) hd
      | ok t =>
        dsimp only
        rw [pullSingle_ok]
        exact hone item t hitem ⟨i, hy, hsingle⟩ d hd
    | _ =>
      simp only [hbatch]
      exact hd

end TeamClu.Sync
