import TeamClu.ForStd.Machine
import TeamClu.ForStd.TreeMap
import TeamClu.Native.PublishPath
import TeamClu.Spec.StoreInvariant

/-!
# When a durable publish is retired

The worker knows by position which outbox item a written PUBLISH came from: it pops the front of
`publish_waiting_for_write` at every `Outgoing::Publish`.  A transient publish goes to the same client
without an entry there, so the pop is right exactly while no item waits behind a transient publish
that is being written.

In every run whose writes meet that condition an item leaves the outbox when the broker acknowledges
the PUBLISH made from it, and every other item is in exactly one of the worker's three structures
(`publishes_retired_by_ack`).
-/

namespace TeamClu.Mqtt

open DurableQueue

/-! ## The machine -/

/-- An item that has left the outbox, with the request that the broker acknowledged in that step. -/
structure Retired where
  id : Nat
  item : DurablePublish
  acked : Option PublishRequest

/-- The worker, with what happened so far. -/
structure PublishState where
  worker : PublishWorker
  /-- Every item that was ever in the outbox. -/
  accepted : List (Nat × DurablePublish)
  retired : List Retired := []
  /-- The items handed to the client in this connection. -/
  handed : List Nat := []

/-- What can happen next. -/
inductive PublishStep where
  | publish (command : PublishCommand)
  /-- `flush_pending`, while the client accepts `accepts` more requests. -/
  | flushPending (accepts : Nat)
  | generationReady
  /-- The client writes its oldest request under a packet id and reports `Outgoing::Publish`. -/
  | write (pkid : Nat)
  | pubAck (pkid : Nat)
  | pubComp (pkid : Nat)
  | connAck
  | pollError
  | restart

/-- The state with another worker; `acked` is what the broker acknowledged. -/
def PublishState.after (s : PublishState) (w : PublishWorker) (acked : Option PublishRequest) :
    PublishState :=
  { s with
    worker := w
    accepted := s.accepted ++ w.store.outbox.values.filter fun p =>
      !s.worker.store.outbox.entries.contains p.1
    retired := s.retired ++ (s.worker.store.outbox.values.filter fun p =>
      !w.store.outbox.entries.contains p.1).map fun p => { id := p.1, item := p.2, acked } }

/-- The broker acknowledges a packet id that was written with this quality of service. -/
def PublishState.acknowledge (s : PublishState) (qos : StoredDelivery) (pkid : Nat) : PublishState :=
  match s.worker.client.unacked.find? (·.1 == pkid) with
  | none => s
  | some (_, request) =>
    if request.qos = qos then
      let client := { s.worker.client with
        unacked := s.worker.client.unacked.filter (·.1 ≠ pkid) }
      s.after (PublishWorker.pubAck { s.worker with client } pkid) (some request)
    else s

/-- The runs of the publish path over a store, whose workers open it again after a restart. -/
def publishMachine (store : DurableMqttStore) : Machine PublishState PublishStep where
  init := { worker := PublishWorker.start store, accepted := store.outbox.values }
  step s step :=
    let w := s.worker
    match step with
    | .publish command => s.after (w.acceptPublish command).1 none
    | .flushPending accepts =>
      let flushed := w.flushPending accepts
      { s.after flushed none with
        handed := s.handed ++ flushed.publishWaitingForWrite.drop w.publishWaitingForWrite.length }
    | .generationReady => if w.connected then s.after { w with generationReady := true } none else s
    | .write pkid =>
      match w.client.requests with
      | [] => s
      | request :: requests =>
        if w.client.mayUse request pkid then
          let unacked := if request.qos = .atMostOnce then w.client.unacked
            else w.client.unacked ++ [(pkid, request)]
          s.after (PublishWorker.outgoingPublish { w with client := { requests, unacked } } pkid) none
        else s
    | .pubAck pkid => s.acknowledge .atLeastOnce pkid
    | .pubComp pkid => s.acknowledge .exactlyOnce pkid
    | .connAck => if w.connected then s else { s.after w.connAck none with handed := [] }
    | .pollError => { s.after w.pollError none with handed := [] }
    | .restart => { s.after (PublishWorker.start w.store) none with handed := [] }

/-- No outbox item waits behind a transient publish that is written, and ids are not used up. -/
def WritesInTurn (s : PublishState) : PublishStep → Prop
  | .publish command =>
    shouldPersistPublish command.delivery = true → s.worker.store.outbox.nextId < U64_MAX
  | .write _ =>
    ∀ request, s.worker.client.requests.head? = some request → request.source = none →
      s.worker.publishWaitingForWrite = []
  | _ => True

/-- The ids that the worker keeps, oldest first. -/
def PublishWorker.tracked (w : PublishWorker) : List Nat :=
  w.publishInflight.map (·.2) ++ w.publishWaitingForWrite ++ w.pending.map (·.id)

/-- A PUBLISH that carries the message of an item. -/
def PublishRequest.Carries (request : PublishRequest) (item : DurablePublish) : Prop :=
  request.topic = item.topic ∧ request.payload = item.payload ∧ request.retain = item.retain ∧
    request.qos = item.delivery

/-- What the publish path promises. -/
structure PublishState.Safe (s : PublishState) : Prop where
  /-- An item is retired when the broker acknowledges a PUBLISH with its message. -/
  retired : ∀ x ∈ s.retired, x.item.delivery ≠ .atMostOnce →
    ∃ request, x.acked = some request ∧ request.Carries x.item
  /-- Every other item is still in the outbox. -/
  kept : ∀ p ∈ s.accepted, s.worker.store.outbox.entries[p.1]? = some p.2 ∨
    ∃ x ∈ s.retired, x.id = p.1 ∧ x.item = p.2
  /-- Each is in exactly one place. -/
  tracked : s.worker.tracked.Nodup ∧
    ∀ id, id ∈ s.worker.tracked ↔ id ∈ s.worker.store.outbox.entries
  /-- Within a connection each is handed to the client once, in the order of the outbox. -/
  handed : s.handed.Pairwise (· < ·)

/-! ## The outbox -/

/-- An acknowledged item is gone from the outbox, and no other. -/
theorem ackPublish_outbox {store : DurableMqttStore}
    (h : IdsOk store.outbox.entries store.outbox.nextId) (id : Nat) :
    (store.ackPublish id).1.outbox.entries = store.outbox.entries.erase id ∧
      (store.ackPublish id).1.outbox.nextId = store.outbox.nextId := by
  unfold DurableMqttStore.ackPublish
  rw [ack_eq h id]
  split_ifs with hid
  · exact ⟨(compactIfNeeded_entries _).1, (compactIfNeeded_entries _).2⟩
  · refine ⟨(Std.ExtTreeMap.ext_getElem? fun k => ?_), rfl⟩
    rw [TreeMap.get_erase]
    split_ifs with heq
    · rw [← heq]
      exact (Std.ExtTreeMap.getElem?_eq_none hid)
    · rfl

private theorem idsOk_erase {entries entries' : Std.ExtTreeMap Nat DurablePublish} {nextId id : Nat}
    (h : IdsOk entries nextId) (heq : entries' = entries.erase id) : IdsOk entries' nextId := by
  subst heq
  exact ⟨h.pos, h.le, fun i hi => h.entry_le i (Std.ExtTreeMap.mem_of_mem_erase hi),
    fun i hi => h.succ_le i (Std.ExtTreeMap.mem_of_mem_erase hi)⟩

/-- A publish that is accepted is put under the next id. -/
theorem enqueuePublish_outbox {store store' : DurableMqttStore} {publish : DurablePublish} {uuid : Str}
    {id : Nat} (h : store.enqueuePublish publish uuid = (store', .ok id)) :
    id = store.outbox.nextId ∧ store'.outbox.nextId = saturatingSucc id ∧
      store'.outbox.entries = store.outbox.entries.insert id
        { publish with eventId := some (publish.eventId.getD uuid) } := by
  unfold DurableMqttStore.enqueuePublish at h
  rw [put_eq] at h
  split_ifs at h
  · cases h
  · cases h
    exact ⟨rfl, rfl, rfl⟩

/-- A publish that is refused leaves the store. -/
theorem enqueuePublish_error {store store' : DurableMqttStore} {publish : DurablePublish} {uuid : Str}
    {e : QueueError} (h : store.enqueuePublish publish uuid = (store', .error e)) :
    store' = store := by
  unfold DurableMqttStore.enqueuePublish at h
  rw [put_eq] at h
  split_ifs at h
  · cases h
    rfl
  · cases h

/-! ## The worker's invariant -/

/-- The items that the unacknowledged publishes came from. -/
def inflightOf (unacked : List (Nat × PublishRequest)) : List (Nat × Nat) :=
  unacked.filterMap fun p => p.2.source.map (p.1, ·)

/-- What holds of the worker between two steps. -/
structure PublishWorker.Inv (w : PublishWorker) : Prop where
  ids : IdsOk w.store.outbox.entries w.store.outbox.nextId
  /-- The three structures hold the outbox in its order. -/
  sorted : w.tracked.Pairwise (· < ·)
  cover : ∀ id, id ∈ w.tracked ↔ id ∈ w.store.outbox.entries
  pending : ∀ p ∈ w.pending, ∃ item, w.store.outbox.entries[p.id]? = some item ∧
    p.publish.topic = item.topic ∧ p.publish.payload = item.payload ∧
      p.publish.retain = item.retain ∧ p.publish.delivery = item.delivery
  /-- What waits for its write is what the client has not written, in its order. -/
  aligned : w.publishWaitingForWrite = w.client.requests.filterMap (·.source)
  inflight : w.publishInflight = inflightOf w.client.unacked
  pkids : (w.client.unacked.map (·.1)).Nodup
  sources : ∀ r ∈ w.client.requests ++ w.client.unacked.map (·.2), ∀ id, r.source = some id →
    ∃ item, w.store.outbox.entries[id]? = some item ∧ r.Carries item
  offline : w.connected = false → w.client.requests = [] ∧ w.client.unacked = []

/-- What a step does to the outbox: nothing, or it puts an item under a fresh id, or it takes one out,
    whose message the broker acknowledged unless it was to be delivered at most once. -/
inductive OutboxStep (q q' : DurableQueue DurablePublish) (acked : Option PublishRequest) : Prop where
  | same (entries : q'.entries = q.entries) (nextId : q'.nextId = q.nextId)
  | put (item : DurablePublish) (fresh : q.nextId ∉ q.entries)
    (entries : q'.entries = q.entries.insert q.nextId item)
    (nextId : q'.nextId = saturatingSucc q.nextId)
  | retire (id : Nat) (item : DurablePublish) (old : q.entries[id]? = some item)
    (entries : q'.entries = q.entries.erase id) (nextId : q'.nextId = q.nextId)
    (acknowledged : item.delivery ≠ .atMostOnce → ∃ r, acked = some r ∧ r.Carries item)

/-- A worker that starts has every item pending. -/
theorem PublishWorker.inv_start {store : DurableMqttStore}
    (h : IdsOk store.outbox.entries store.outbox.nextId) : (PublishWorker.start store).Inv := by
  have htracked : (PublishWorker.start store).tracked = store.outbox.entries.keys := by
    simp only [tracked, start, loadPendingPublishes, DurableQueue.values, List.map_nil,
      List.nil_append, List.map_map]
    exact Std.ExtTreeMap.map_fst_toList_eq_keys
  refine ⟨h, ?_, fun id => ?_, fun p hp => ?_, rfl, rfl, List.nodup_nil,
    fun _ hr => absurd hr List.not_mem_nil, fun _ => ⟨rfl, rfl⟩⟩
  · rw [htracked]
    exact Std.ExtTreeMap.ordered_keys.imp fun hlt => Nat.compare_eq_lt.mp hlt
  · rw [htracked, Std.ExtTreeMap.mem_keys]
    rfl
  · obtain ⟨⟨id, item⟩, hentry, rfl⟩ := List.mem_map.mp hp
    exact ⟨item, TreeMap.mem_toList.mp hentry, rfl, rfl, rfl, rfl⟩

namespace PublishWorker

variable {w : PublishWorker}

/-! ### Requeueing -/

/-- Looking up items that are all there keeps their ids. -/
private theorem map_id_lookup {entries : Std.ExtTreeMap Nat DurablePublish} {ids : List Nat}
    (h : ∀ id ∈ ids, id ∈ entries) :
    (ids.filterMap fun id => entries[id]?.map fun publish => PendingPublish.mk id publish).map (·.id) =
      ids := by
  induction ids with
  | nil => rfl
  | cons id ids ih =>
    obtain ⟨publish, hpublish⟩ : ∃ publish, entries[id]? = some publish := by
      rw [← Option.isSome_iff_exists, ← Std.ExtTreeMap.mem_iff_isSome_getElem?]
      exact h id List.mem_cons_self
    rw [List.filterMap_cons_some (by rw [hpublish]; rfl), List.map_cons,
      ih fun i hi => h i (List.mem_cons_of_mem _ hi)]

/-- Requeueing makes everything pending, in the order of the outbox. -/
theorem Inv.requeue (h : w.Inv) :
    w.requeuePublishAttempts.pending.map (·.id) = w.tracked ∧
      ∀ p ∈ w.requeuePublishAttempts.pending, ∃ item, w.store.outbox.entries[p.id]? = some item ∧
        p.publish.topic = item.topic ∧ p.publish.payload = item.payload ∧
          p.publish.retain = item.retain ∧ p.publish.delivery = item.delivery := by
  -- sorting the drained ids gives them in the order of the writes
  have hsorted : (w.publishWaitingForWrite ++ w.publishInflight.map (·.2)).insertionSort (· ≤ ·) =
      w.publishInflight.map (·.2) ++ w.publishWaitingForWrite := by
    have hbefore := (List.pairwise_append.mp h.sorted).1
    refine List.Perm.eq_of_pairwise (fun (a b : Nat) _ _ => Nat.le_antisymm)
      (List.pairwise_insertionSort _ _) (hbefore.imp Nat.le_of_lt) ?_
    exact (List.perm_insertionSort _ _).trans List.perm_append_comm
  have hmem : ∀ id ∈ w.publishInflight.map (·.2) ++ w.publishWaitingForWrite,
      id ∈ w.store.outbox.entries := fun id hid =>
    (h.cover id).mp (List.mem_append_left _ hid)
  constructor
  · simp only [requeuePublishAttempts]
    rw [hsorted, List.map_append, map_id_lookup hmem]
    rfl
  · -- what is sent again is read from the store, and the rest was pending before
    intro p hp
    simp only [requeuePublishAttempts] at hp
    rcases List.mem_append.mp hp with hp | hp
    · obtain ⟨id, -, hid⟩ := List.mem_filterMap.mp hp
      obtain ⟨item, hitem, rfl⟩ := Option.map_eq_some_iff.mp hid
      exact ⟨item, hitem, rfl, rfl, rfl, rfl⟩
    · exact h.pending p hp

/-- After a requeueing with nothing left in the client the invariant holds. -/
private theorem Inv.of_requeue (h : w.Inv) {w' : PublishWorker} (hstore : w'.store = w.store)
    (hclient : w'.client = {}) (hpending : w'.pending = w.requeuePublishAttempts.pending)
    (hwaiting : w'.publishWaitingForWrite = []) (hinflight : w'.publishInflight = []) : w'.Inv := by
  obtain ⟨hids, hitems⟩ := h.requeue
  -- nothing is waiting or in flight any more: all that is tracked is pending
  have htracked : w'.tracked = w.tracked := by
    simp only [tracked, hwaiting, hinflight, hpending, List.map_nil, List.nil_append]
    exact hids
  refine ⟨hstore ▸ h.ids, htracked ▸ h.sorted, ?_, ?_, ?_, ?_, ?_, ?_, fun _ => ?_⟩
  · rw [htracked, hstore]
    exact h.cover
  · rw [hpending, hstore]
    exact hitems
  · rw [hwaiting, hclient]
    rfl
  · rw [hinflight, hclient]
    rfl
  · rw [hclient]
    exact List.nodup_nil
  · rw [hclient]
    nofun
  · rw [hclient]
    exact ⟨rfl, rfl⟩

theorem Inv.pollError (h : w.Inv) : w.pollError.Inv := h.of_requeue rfl rfl rfl rfl rfl

theorem Inv.connAck (h : w.Inv) (hoffline : w.connected = false) : w.connAck.Inv := by
  obtain ⟨hrequests, hunacked⟩ := h.offline hoffline
  have hclient : w.client = {} := by
    cases hc : w.client
    rw [hc] at hrequests hunacked
    cases hrequests
    cases hunacked
    rfl
  exact h.of_requeue rfl hclient rfl rfl rfl

/-! ### Publishing and flushing -/

/-- The request that is made from a pending publish. -/
def toRequest (p : PendingPublish) : PublishRequest :=
  { topic := p.publish.topic, payload := p.publish.payload, retain := p.publish.retain
    qos := p.publish.delivery, source := some p.id }

/-- The loop moves the first pending publishes to the client. -/
theorem flushLoop_spec (turns accepts : Nat) (w : PublishWorker) :
    ∃ n, flushLoop turns accepts w =
      { w with
        pending := w.pending.drop n
        client := { w.client with requests := w.client.requests ++ (w.pending.take n).map toRequest }
        publishWaitingForWrite := w.publishWaitingForWrite ++ (w.pending.take n).map (·.id) } := by
  induction turns generalizing accepts w with
  | zero => exact ⟨0, by simp [flushLoop]⟩
  | succ turns ih =>
    unfold flushLoop
    split
    · -- nothing is pending, or the client takes no more
      exact ⟨0, by simp⟩
    · exact ⟨0, by simp⟩
    · -- one publish goes from the pending ones to the client
      next pending rest accepts hpending =>
      obtain ⟨n, hn⟩ := ih accepts { w with
        pending := rest
        client := { w.client with requests := w.client.requests ++ [toRequest pending] }
        publishWaitingForWrite := w.publishWaitingForWrite ++ [pending.id] }
      refine ⟨n + 1, hn.trans ?_⟩
      simp [hpending]

/-- So does `flush_pending`, while it is connected. -/
theorem flushPending_spec (accepts : Nat) (w : PublishWorker) :
    ∃ n, w.flushPending accepts =
      { w with
        pending := w.pending.drop n
        client := { w.client with requests := w.client.requests ++ (w.pending.take n).map toRequest }
        publishWaitingForWrite := w.publishWaitingForWrite ++ (w.pending.take n).map (·.id) } := by
  unfold PublishWorker.flushPending
  split
  · exact flushLoop_spec 64 accepts w
  · exact ⟨0, by simp⟩

/-- `flush_pending` keeps the invariant. -/
theorem Inv.flushPending (h : w.Inv) (accepts : Nat) : (w.flushPending accepts).Inv := by
  unfold PublishWorker.flushPending
  split
  · next hready =>
    obtain ⟨n, hn⟩ := flushLoop_spec 64 accepts w
    rw [hn]
    -- what goes to the client stays tracked, in its place
    have htracked : ∀ pending : List PendingPublish, pending = w.pending →
        w.publishInflight.map (·.2) ++
          (w.publishWaitingForWrite ++ (pending.take n).map (·.id)) ++ (pending.drop n).map (·.id) =
        w.tracked := by
      rintro _ rfl
      simp only [tracked, List.append_assoc]
      rw [← List.map_append, List.take_append_drop]
    refine ⟨h.ids, ?_, ?_, fun p hp => h.pending p (List.mem_of_mem_drop hp), ?_, h.inflight, h.pkids,
      fun r hr id hid => ?_, fun hoff => ?_⟩
    · rw [tracked, htracked _ rfl]
      exact h.sorted
    · rw [tracked, htracked _ rfl]
      exact h.cover
    · -- the requests that were handed over are those that wait for a write
      rw [List.filterMap_append, ← h.aligned, List.filterMap_map]
      simp [Function.comp_def, toRequest]
    · rw [List.append_assoc] at hr
      rcases List.mem_append.mp hr with hr | hr
      · -- the source of a request is its item, handed over now or before
        exact h.sources r (List.mem_append_left _ hr) id hid
      · rcases List.mem_append.mp hr with hr | hr
        · obtain ⟨p, hp, rfl⟩ := List.mem_map.mp hr
          obtain rfl := Option.some.inj hid
          exact h.pending p (List.mem_of_mem_take hp)
        · exact h.sources r (List.mem_append_right _ hr) id hid
    · rw [Bool.and_eq_true] at hready
      exact absurd (hready.1.symm.trans hoff) Bool.true_eq_false_eq_False
  · exact h

/-- A transient publish goes to the client alone; another is put in the outbox and becomes pending. -/
theorem Inv.acceptPublish (h : w.Inv) (command : PublishCommand)
    (hids : shouldPersistPublish command.delivery = true → w.store.outbox.nextId < U64_MAX) :
    (w.acceptPublish command).1.Inv ∧
      OutboxStep w.store.outbox (w.acceptPublish command).1.store.outbox none ∧
      ∀ p ∈ (w.acceptPublish command).1.pending, p ∈ w.pending ∨
        (p.id = w.store.outbox.nextId ∧ w.store.outbox.nextId < U64_MAX) := by
  unfold PublishWorker.acceptPublish
  -- a command that is refused changes nothing
  have hsame : w.Inv ∧ OutboxStep w.store.outbox w.store.outbox none ∧
      ∀ p ∈ w.pending, p ∈ w.pending ∨
        (p.id = w.store.outbox.nextId ∧ w.store.outbox.nextId < U64_MAX) :=
    ⟨h, .same rfl rfl, fun p hp => Or.inl hp⟩
  split
  · split
    · next hconnected =>
      split
      · -- without a record, a request without a source goes to the client at once
        refine ⟨⟨h.ids, h.sorted, h.cover, h.pending, ?_, h.inflight, h.pkids, fun r hr id hid => ?_,
          fun hoff => absurd (hconnected.symm.trans hoff) (by decide)⟩, hsame.2⟩
        · rw [h.aligned, List.filterMap_append]
          exact (List.append_nil _).symm
        · refine h.sources r ?_ id hid
          rcases List.mem_append.mp hr with hr | hr
          · rcases List.mem_append.mp hr with hr | hr
            · exact List.mem_append_left _ hr
            · rw [List.mem_singleton.mp hr] at hid
              cases hid
          · exact List.mem_append_right _ hr
      · exact hsame
    · exact hsame
  · next hpersist =>
    have hlt := hids (by simpa using hpersist)
    -- the id is new and above all the others
    have hfresh : w.store.outbox.nextId ∉ w.store.outbox.entries := fun hmem => by
      have := h.ids.succ_le _ hmem
      unfold saturatingSucc at this
      omega
    have hbelow : ∀ id ∈ w.store.outbox.entries, id < w.store.outbox.nextId := fun id hmem => by
      have := h.ids.succ_le id hmem
      unfold saturatingSucc at this
      omega
    split
    · -- the worker cannot take the publish
      exact hsame
    · dsimp only
      split
      · next store id hput =>
        obtain ⟨rfl, hnextId, hentries⟩ := enqueuePublish_outbox hput
        refine ⟨⟨?_, ?_, fun id => ?_, fun p hp => ?_, h.aligned, h.inflight, h.pkids,
          fun r hr id hid => ?_, h.offline⟩, .put _ hfresh hentries hnextId, fun p hp => ?_⟩
        · -- the id is taken, so the next one is above it
          have := @idsOk_afterPut _ DurablePublish.text _ h.ids
            { topic := command.topic, payload := command.payload, retain := command.retain
              delivery := command.delivery, eventId := some (command.eventId.getD command.uuid) }
          dsimp only
          rw [hentries, hnextId]
          exact this
        · -- the new id comes last
          simp only [tracked, List.map_append, List.map_singleton, ← List.append_assoc]
          refine List.pairwise_append.mpr ⟨h.sorted, List.pairwise_singleton _ _, fun id hid n hn => ?_⟩
          rw [List.mem_singleton.mp hn]
          exact hbelow id ((h.cover id).mp hid)
        · simp only [tracked, List.map_append, List.map_singleton, ← List.append_assoc, hentries,
            Std.ExtTreeMap.mem_insert, Std.LawfulEqCmp.compare_eq_iff_eq]
          rw [List.mem_append, List.mem_singleton, or_comm, eq_comm]
          exact or_congr_right (h.cover id)
        · -- the old items are untouched by the new one
          dsimp only
          rw [hentries]
          rcases List.mem_append.mp hp with hp | hp
          · obtain ⟨item, hitem, hmessage⟩ := h.pending p hp
            refine ⟨item, ?_, hmessage⟩
            rw [TreeMap.get_insert, if_neg, hitem]
            rintro heq
            exact hfresh (heq ▸ Std.ExtTreeMap.mem_iff_isSome_getElem?.mpr (hitem ▸ rfl))
          · rw [List.mem_singleton.mp hp]
            exact ⟨_, (TreeMap.get_insert _ _ _ _).trans (if_pos rfl), rfl, rfl, rfl, rfl⟩
        · -- and so are the sources of the requests
          dsimp only
          rw [hentries]
          obtain ⟨item, hitem, hcarries⟩ := h.sources r hr id hid
          refine ⟨item, ?_, hcarries⟩
          rw [TreeMap.get_insert, if_neg, hitem]
          rintro heq
          exact hfresh (heq ▸ Std.ExtTreeMap.mem_iff_isSome_getElem?.mpr (hitem ▸ rfl))
        · refine (List.mem_append.mp hp).imp_right fun hp => ⟨?_, hlt⟩
          rw [List.mem_singleton.mp hp]
      · -- the store refused it
        next store e hput =>
        obtain rfl := enqueuePublish_error hput
        exact hsame

/-! ### Writing and acknowledging -/

/-- Taking one id out of a list in strict order. -/
private theorem pairwise_lt_remove {pre post : List Nat} {id : Nat}
    (h : (pre ++ id :: post).Pairwise (· < ·)) :
    (pre ++ post).Pairwise (· < ·) ∧
      ∀ x, x ∈ pre ++ post ↔ x ∈ pre ++ id :: post ∧ x ≠ id := by
  refine ⟨h.sublist ((List.sublist_cons_self id post).append_left pre), fun x => ?_⟩
  have hnot : id ∉ pre ++ post := by
    have hnodup : (pre ++ id :: post).Nodup := h.imp Nat.ne_of_lt
    exact (List.nodup_cons.mp (List.nodup_middle.mp hnodup)).1
  simp only [List.mem_append, List.mem_cons] at hnot ⊢
  constructor
  · intro hx
    exact ⟨by tauto, by rintro rfl; exact hnot hx⟩
  · tauto

/-- The worker after an acknowledgement of an id that it no longer tracks. -/
private theorem Inv.retire {w₀ w : PublishWorker} (h : w₀.Inv) {id : Nat} (pre post : List Nat)
    (hbefore : w₀.tracked = pre ++ id :: post) (hafter : w.tracked = pre ++ post)
    (hstore : w.store = w₀.store) (hpending : w.pending = w₀.pending)
    (haligned : w.publishWaitingForWrite = w.client.requests.filterMap (·.source))
    (hinflight : w.publishInflight = inflightOf w.client.unacked)
    (hpkids : (w.client.unacked.map (·.1)).Nodup)
    (hsources : ∀ r ∈ w.client.requests ++ w.client.unacked.map (·.2),
      r ∈ w₀.client.requests ++ w₀.client.unacked.map (·.2))
    (hoffline : w.connected = false → w.client.requests = [] ∧ w.client.unacked = []) :
    (w.ackPublish id).Inv := by
  obtain ⟨hsorted, hremove⟩ := pairwise_lt_remove (hbefore ▸ h.sorted)
  obtain ⟨hentries, hnextId⟩ := ackPublish_outbox h.ids id
  -- the other items stay
  have hkeep : ∀ id', id' ∈ w.tracked → ∀ item, w₀.store.outbox.entries[id']? = some item →
      (w₀.store.ackPublish id).1.outbox.entries[id']? = some item := by
    intro id' hid' item hitem
    rw [hentries, TreeMap.get_erase, if_neg, hitem]
    rintro rfl
    exact ((hremove id).mp (hafter ▸ hid')).2 rfl
  -- a request with a source is waiting or in flight, so its id is tracked
  have hmember : ∀ r ∈ w.client.requests ++ w.client.unacked.map (·.2), ∀ id',
      r.source = some id' → id' ∈ w.tracked := by
    intro r hr id' hid'
    unfold tracked
    rw [haligned, hinflight]
    rcases List.mem_append.mp hr with hr | hr
    · exact List.mem_append_left _ (List.mem_append_right _ (List.mem_filterMap.mpr ⟨r, hr, hid'⟩))
    · obtain ⟨⟨pkid, r⟩, hp, rfl⟩ := List.mem_map.mp hr
      refine List.mem_append_left _ (List.mem_append_left _ (List.mem_map.mpr ⟨(pkid, id'), ?_, rfl⟩))
      exact List.mem_filterMap.mpr ⟨(pkid, r), hp, by dsimp only at hid' ⊢; rw [hid']; rfl⟩
  unfold PublishWorker.ackPublish
  rw [hstore]
  refine ⟨?_, hafter ▸ hsorted, fun id' => ?_, fun p hp => ?_, haligned, hinflight, hpkids,
    fun r hr id' hid' => ?_, hoffline⟩
  · dsimp only
    rw [hnextId]
    exact idsOk_erase h.ids hentries
  · dsimp only
    rw [hentries, Std.ExtTreeMap.mem_erase, Ne, Std.LawfulEqCmp.compare_eq_iff_eq]
    change id' ∈ w.tracked ↔ _
    rw [hafter, hremove, ← hbefore, h.cover, and_comm, ne_comm]
  · -- the item of a pending publish is not the one that goes
    obtain ⟨item, hitem, hmessage⟩ := h.pending p (hpending ▸ hp)
    refine ⟨item, hkeep p.id ?_ item hitem, hmessage⟩
    exact List.mem_append_right _ (List.mem_map_of_mem hp)
  · obtain ⟨item, hitem, hcarries⟩ := h.sources r (hsources r hr) id' hid'
    exact ⟨item, hkeep id' (hmember r hr id' hid') item hitem, hcarries⟩

/-- The entry of a packet id, and what is left without it. -/
private theorem unacked_split {unacked : List (Nat × PublishRequest)}
    (h : (unacked.map (·.1)).Nodup) {pkid : Nat} {p : Nat × PublishRequest}
    (hfind : unacked.find? (·.1 == pkid) = some p) :
    p.1 = pkid ∧ ∃ pre post, unacked = pre ++ p :: post ∧ pkid ∉ (pre ++ post).map (·.1) := by
  obtain ⟨hp, pre, post, rfl, -⟩ := List.find?_eq_some_iff_append.mp hfind
  obtain rfl : p.1 = pkid := beq_iff_eq.mp hp
  refine ⟨rfl, pre, post, rfl, ?_⟩
  rw [List.map_append, List.map_cons] at h
  rw [List.map_append]
  exact (List.nodup_cons.mp (List.nodup_middle.mp h)).1

/-- Nothing of this packet id is filtered out. -/
private theorem filter_pkid {α : Type} {l : List (Nat × α)} {pkid : Nat}
    (h : pkid ∉ l.map (·.1)) : l.filter (·.1 ≠ pkid) = l := by
  refine List.filter_eq_self.mpr fun p hp => ?_
  simpa using fun heq : p.1 = pkid => h (List.mem_map.mpr ⟨p, hp, heq⟩)

private theorem inflightOf_append (a b : List (Nat × PublishRequest)) :
    inflightOf (a ++ b) = inflightOf a ++ inflightOf b := List.filterMap_append

private theorem pkid_inflightOf {unacked : List (Nat × PublishRequest)} {pkid : Nat}
    (h : pkid ∉ unacked.map (·.1)) : pkid ∉ (inflightOf unacked).map (·.1) := by
  intro hmem
  obtain ⟨q, hq, rfl⟩ := List.mem_map.mp hmem
  obtain ⟨p, hp, hsource⟩ := List.mem_filterMap.mp hq
  obtain ⟨id, -, rfl⟩ := Option.map_eq_some_iff.mp hsource
  exact h (List.mem_map.mpr ⟨p, hp, rfl⟩)

/-- The client writes its oldest request: a transient one while nothing waits, or that of the item at
    the front of those that wait. -/
theorem Inv.write (h : w.Inv) {request : PublishRequest} {requests : List PublishRequest} {pkid : Nat}
    (hrequests : w.client.requests = request :: requests)
    (hpkid : w.client.mayUse request pkid = true)
    (hturn : request.source = none → w.publishWaitingForWrite = []) :
    let unacked := if request.qos = .atMostOnce then w.client.unacked
      else w.client.unacked ++ [(pkid, request)]
    let w' := outgoingPublish { w with client := { requests, unacked } } pkid
    w'.Inv ∧ OutboxStep w.store.outbox w'.store.outbox none ∧ w'.pending = w.pending := by
  intro unacked w'
  -- a publish at QoS 0 has no packet id, and the others a fresh one
  obtain ⟨hzero, hfresh⟩ : (request.qos = .atMostOnce ↔ pkid = 0) ∧
      pkid ∉ w.client.unacked.map (·.1) := by
    simpa [MqttClient.mayUse] using hpkid
  have hoffline : w.connected = false → requests = [] ∧ unacked = [] := fun hoff => by
    rw [(h.offline hoff).1] at hrequests
    cases hrequests
  -- the packet ids stay apart
  have hnodup : (unacked.map (·.1)).Nodup := by
    simp only [unacked]
    split
    · exact h.pkids
    · rw [List.map_append, List.map_singleton, List.nodup_append_comm]
      exact List.nodup_cons.mpr ⟨hfresh, h.pkids⟩
  -- no request is new
  have hsources : ∀ r ∈ requests ++ unacked.map (·.2),
      r ∈ w.client.requests ++ w.client.unacked.map (·.2) := by
    intro r hr
    rw [hrequests]
    rcases List.mem_append.mp hr with hr | hr
    · exact List.mem_append_left _ (List.mem_cons_of_mem _ hr)
    · simp only [unacked] at hr
      split at hr
      · exact List.mem_append_right _ hr
      · rw [List.map_append, List.mem_append, List.map_singleton, List.mem_singleton] at hr
        rcases hr with hr | rfl
        · exact List.mem_append_right _ hr
        · exact List.mem_append_left _ List.mem_cons_self
  have haligned := h.aligned
  rw [hrequests] at haligned
  cases hsource : request.source with
  -- a request without a record is written: nothing is tracked for it
  | none =>
    rw [List.filterMap_cons_none hsource] at haligned
    have hwaiting := hturn hsource
    have hw' : w' = { w with client := { requests, unacked } } := by
      simp only [w', outgoingPublish, hwaiting]
    rw [hw']
    refine ⟨⟨h.ids, h.sorted, h.cover, h.pending, haligned, ?_, hnodup, fun r hr =>
      h.sources r (hsources r hr), hoffline⟩, .same rfl rfl, rfl⟩
    simp only [unacked]
    split
    · exact h.inflight
    · rw [inflightOf_append, h.inflight]
      simp [inflightOf, hsource]
  | some id =>
    rw [List.filterMap_cons_some hsource] at haligned
    obtain ⟨item, hitem, hcarries⟩ := h.sources request
      (hrequests ▸ List.mem_append_left _ List.mem_cons_self) id hsource
    by_cases hpkid0 : pkid = 0
    · -- QoS 0: the item is done
      have hqos := hzero.mpr hpkid0
      have hunacked : unacked = w.client.unacked := if_pos hqos
      have hw' : w' = ackPublish { w with
          client := { requests, unacked }
          publishWaitingForWrite := requests.filterMap (·.source) } id := by
        simp only [w', outgoingPublish, haligned, if_pos hpkid0]
      rw [hw']
      obtain ⟨hentries, hnextId⟩ := ackPublish_outbox h.ids id
      refine ⟨h.retire (w.publishInflight.map (·.2))
        (requests.filterMap (·.source) ++ w.pending.map (·.id)) ?_ ?_ rfl rfl rfl
        (h.inflight.trans (congrArg inflightOf hunacked.symm)) hnodup hsources hoffline,
        .retire id item hitem hentries hnextId fun hne => ?_, rfl⟩
      · simp [tracked, haligned]
      · simp [tracked]
      · exact absurd (hcarries.2.2.2.symm.trans hqos) hne
    · -- QoS 1 or 2: the item is in flight
      have hqos : request.qos ≠ .atMostOnce := fun hqos => hpkid0 (hzero.mp hqos)
      have hunacked : unacked = w.client.unacked ++ [(pkid, request)] := if_neg hqos
      have hkeep : w.publishInflight.filter (·.1 ≠ pkid) = w.publishInflight := by
        rw [h.inflight]
        exact filter_pkid (pkid_inflightOf hfresh)
      have hw' : w' = { w with
          client := { requests, unacked }
          publishWaitingForWrite := requests.filterMap (·.source)
          publishInflight := w.publishInflight ++ [(pkid, id)] } := by
        simp only [w', outgoingPublish, haligned, if_neg hpkid0, hkeep]
      rw [hw']
      have htracked : tracked { w with
          client := { requests, unacked }
          publishWaitingForWrite := requests.filterMap (·.source)
          publishInflight := w.publishInflight ++ [(pkid, id)] } = w.tracked := by
        simp [tracked, haligned]
      refine ⟨⟨h.ids, htracked ▸ h.sorted, htracked ▸ h.cover, h.pending, rfl, ?_, hnodup,
        fun r hr => h.sources r (hsources r hr), hoffline⟩, .same rfl rfl, rfl⟩
      dsimp only
      rw [hunacked, inflightOf_append, h.inflight]
      simp [inflightOf, hsource]

/-- The broker acknowledges a packet id: the item that it came from is retired. -/
theorem Inv.pubAck (h : w.Inv) {pkid : Nat} {p : Nat × PublishRequest}
    (hfind : w.client.unacked.find? (·.1 == pkid) = some p) :
    let client := { w.client with unacked := w.client.unacked.filter (·.1 ≠ pkid) }
    let w' := PublishWorker.pubAck { w with client } pkid
    w'.Inv ∧ OutboxStep w.store.outbox w'.store.outbox (some p.2) ∧ w'.pending = w.pending := by
  -- the packet id is that of one unacknowledged request
  obtain ⟨rfl, pre, post, hsplit, hnot⟩ := unacked_split h.pkids hfind
  have hfilter : w.client.unacked.filter (·.1 ≠ p.1) = pre ++ post := by
    rw [hsplit, List.filter_append, List.filter_cons_of_neg (by simp), ← List.filter_append]
    exact filter_pkid hnot
  intro client w'
  have hclient : client.unacked = pre ++ post := hfilter
  have hsources : ∀ r ∈ client.requests ++ client.unacked.map (·.2),
      r ∈ w.client.requests ++ w.client.unacked.map (·.2) := by
    intro r hr
    rcases List.mem_append.mp hr with hr | hr
    · exact List.mem_append_left _ hr
    · obtain ⟨q, hq, rfl⟩ := List.mem_map.mp hr
      exact List.mem_append_right _ (List.mem_map_of_mem (List.mem_of_mem_filter hq))
  -- the packet ids stay apart
  have hnodup : (client.unacked.map (·.1)).Nodup := by
    rw [hclient]
    have := h.pkids
    rw [hsplit, List.map_append, List.map_cons] at this
    rw [List.map_append]
    exact (List.nodup_cons.mp (List.nodup_middle.mp this)).2
  have hoffline : w.connected = false → client.requests = [] ∧ client.unacked = [] := fun hoff => by
    obtain ⟨hrequests, hunacked⟩ := h.offline hoff
    refine ⟨hrequests, ?_⟩
    rw [show client.unacked = w.client.unacked.filter (·.1 ≠ p.1) from rfl, hunacked]
    rfl
  have hinflight := h.inflight
  have hnot' := pkid_inflightOf hnot
  rw [inflightOf_append, List.map_append, List.mem_append, not_or] at hnot'
  rw [hsplit, inflightOf_append] at hinflight
  cases hsource : p.2.source with
  -- a request without a record: nothing is in flight under its packet id
  | none =>
    have hsame : inflightOf (p :: post) = inflightOf post := by simp [inflightOf, hsource]
    have hnone : w.publishInflight.find? (·.1 == p.1) = none := by
      rw [hinflight, hsame, List.find?_eq_none]
      intro q hq
      have hne : q.1 ≠ p.1 := by
        rintro heq
        rcases List.mem_append.mp hq with hq | hq
        · exact hnot'.1 (List.mem_map.mpr ⟨q, hq, heq⟩)
        · exact hnot'.2 (List.mem_map.mpr ⟨q, hq, heq⟩)
      simpa using hne
    have hw' : w' = { w with client } := by
      simp only [w', PublishWorker.pubAck, hnone]
    rw [hw']
    refine ⟨⟨h.ids, h.sorted, h.cover, h.pending, h.aligned, ?_, hnodup, fun r hr =>
      h.sources r (hsources r hr), hoffline⟩, .same rfl rfl, rfl⟩
    dsimp only
    rw [hinflight, hsame, hclient, inflightOf_append]
  -- a recorded one: its item is retired, acknowledged
  | some id =>
    have hcons : inflightOf (p :: post) = (p.1, id) :: inflightOf post := by
      simp [inflightOf, hsource]
    rw [hcons] at hinflight
    have hget : w.publishInflight.find? (·.1 == p.1) = some (p.1, id) := by
      rw [hinflight, List.find?_append, List.find?_eq_none.mpr, Option.none_or, List.find?_cons_of_pos]
      · simp
      · intro q hq
        have hne : q.1 ≠ p.1 := fun heq => hnot'.1 (List.mem_map.mpr ⟨q, hq, heq⟩)
        simpa using hne
    have hrest : w.publishInflight.filter (·.1 ≠ p.1) = inflightOf pre ++ inflightOf post := by
      rw [hinflight, List.filter_append, List.filter_cons_of_neg (by simp), filter_pkid hnot'.1,
        filter_pkid hnot'.2]
    have hw' : w' = PublishWorker.ackPublish { w with
        client
        publishInflight := inflightOf pre ++ inflightOf post } id := by
      simp only [w', PublishWorker.pubAck, hget, hrest]
    rw [hw']
    obtain ⟨item, hitem, hcarries⟩ := h.sources p.2 (List.mem_append_right _ (hsplit ▸
      List.mem_map_of_mem (List.mem_append_right _ List.mem_cons_self))) id hsource
    obtain ⟨hentries, hnextId⟩ := ackPublish_outbox h.ids id
    refine ⟨h.retire ((inflightOf pre).map (·.2))
      ((inflightOf post).map (·.2) ++ w.publishWaitingForWrite ++ w.pending.map (·.id))
      ?_ ?_ rfl rfl h.aligned ?_ hnodup hsources hoffline,
      .retire id item hitem hentries hnextId fun _ => ⟨p.2, rfl, hcarries⟩, rfl⟩
    · simp [tracked, hinflight]
    · simp [tracked]
    · dsimp only
      rw [hclient, inflightOf_append]

end PublishWorker

/-! ## Runs -/

/-- What holds of the worker and of what happened so far. -/
structure PublishState.Inv (s : PublishState) : Prop where
  worker : s.worker.Inv
  retired : ∀ x ∈ s.retired, x.item.delivery ≠ .atMostOnce →
    ∃ request, x.acked = some request ∧ request.Carries x.item
  kept : ∀ p ∈ s.accepted, s.worker.store.outbox.entries[p.1]? = some p.2 ∨
    ∃ x ∈ s.retired, x.id = p.1 ∧ x.item = p.2
  handed : s.handed.Pairwise (· < ·)
  /-- What was handed over comes before all that is pending or is to come. -/
  later : ∀ id ∈ s.handed, (∀ p ∈ s.worker.pending, id < p.id) ∧
    saturatingSucc id ≤ s.worker.store.outbox.nextId

namespace PublishState

variable {s : PublishState}

private theorem mem_entries {entries : Std.ExtTreeMap Nat DurablePublish} {id : Nat}
    {item : DurablePublish} (h : entries[id]? = some item) : id ∈ entries :=
  Std.ExtTreeMap.mem_iff_isSome_getElem?.mpr (h ▸ rfl)

/-- An item that is accepted or retired in a step. -/
private theorem mem_diff {q q' : DurableQueue DurablePublish} {p : Nat × DurablePublish}
    (h : p ∈ q.values.filter fun p => !q'.entries.contains p.1) :
    q.entries[p.1]? = some p.2 ∧ p.1 ∉ q'.entries := by
  obtain ⟨hmem, hnot⟩ := List.mem_filter.mp h
  rw [Bool.not_eq_true', ← Bool.not_eq_true, Std.ExtTreeMap.contains_iff_mem] at hnot
  exact ⟨TreeMap.mem_toList.mp hmem, hnot⟩

/-- Every item is accounted for after a step. -/
private theorem Inv.account (h : s.Inv) (w : PublishWorker) (acked : Option PublishRequest)
    (hstep : OutboxStep s.worker.store.outbox w.store.outbox acked) :
    (∀ x ∈ (s.after w acked).retired, x.item.delivery ≠ .atMostOnce →
      ∃ request, x.acked = some request ∧ request.Carries x.item) ∧
    ∀ p ∈ (s.after w acked).accepted, w.store.outbox.entries[p.1]? = some p.2 ∨
      ∃ x ∈ (s.after w acked).retired, x.id = p.1 ∧ x.item = p.2 := by
  have hold : ∀ p : Nat × DurablePublish, (∃ x ∈ s.retired, x.id = p.1 ∧ x.item = p.2) →
      ∃ x ∈ (s.after w acked).retired, x.id = p.1 ∧ x.item = p.2 := fun p ⟨x, hx, hp⟩ =>
    ⟨x, List.mem_append_left _ hx, hp⟩
  cases hstep with
  | same hentries =>
    constructor
    · -- the entries are as they were: nothing was retired
      intro x hx
      rcases List.mem_append.mp hx with hx | hx
      · exact h.retired x hx
      · obtain ⟨p, hp, rfl⟩ := List.mem_map.mp hx
        obtain ⟨hmem, hnot⟩ := mem_diff hp
        exact absurd (hentries ▸ mem_entries hmem) hnot
    · intro p hp
      rcases List.mem_append.mp hp with hp | hp
      · rw [hentries]
        exact (h.kept p hp).imp_right (hold p)
      · obtain ⟨hmem, -⟩ := mem_diff hp
        exact Or.inl hmem
  | put item hfresh hentries =>
    -- nothing was retired: the old ids are still there
    constructor
    · intro x hx
      rcases List.mem_append.mp hx with hx | hx
      · exact h.retired x hx
      · obtain ⟨p, hp, rfl⟩ := List.mem_map.mp hx
        obtain ⟨hmem, hnot⟩ := mem_diff hp
        rw [hentries] at hnot
        exact absurd (Std.ExtTreeMap.mem_insert.mpr (Or.inr (mem_entries hmem))) hnot
    · intro p hp
      -- the new item is the accepted one
      rcases List.mem_append.mp hp with hp | hp
      · refine (h.kept p hp).imp (fun hmem => ?_) (hold p)
        rw [hentries, TreeMap.get_insert, if_neg, hmem]
        rintro heq
        exact hfresh (heq ▸ mem_entries hmem)
      · exact Or.inl (mem_diff hp).1
  | retire id item hitem hentries _ hacked =>
    constructor
    · intro x hx
      rcases List.mem_append.mp hx with hx | hx
      · exact h.retired x hx
      · obtain ⟨p, hp, rfl⟩ := List.mem_map.mp hx
        obtain ⟨hmem, hnot⟩ := mem_diff hp
        -- the one id that is gone is the retired one
        rw [hentries, Std.ExtTreeMap.mem_erase, not_and_or] at hnot
        have heq : id = p.1 := by
          have := hnot.resolve_right (not_not.mpr (mem_entries hmem))
          simpa [Std.LawfulEqCmp.compare_eq_iff_eq] using this
        subst heq
        obtain rfl := Option.some.inj (hitem.symm.trans hmem)
        exact hacked
    · intro p hp
      rcases List.mem_append.mp hp with hp | hp
      · -- an accepted item is retired now, was retired before, or is kept
        rcases h.kept p hp with hmem | hretired
        · by_cases heq : id = p.1
          · subst heq
            obtain rfl := Option.some.inj (hitem.symm.trans hmem)
            refine Or.inr ⟨{ id := p.1, item := p.2, acked }, List.mem_append_right _
              (List.mem_map.mpr ⟨p, List.mem_filter.mpr ⟨TreeMap.mem_toList.mpr hmem, ?_⟩, rfl⟩),
              rfl, rfl⟩
            rw [hentries, Bool.not_eq_true', ← Bool.not_eq_true, Std.ExtTreeMap.contains_iff_mem,
              Std.ExtTreeMap.mem_erase, not_and_or, not_not]
            exact Or.inl Std.ReflCmp.compare_self
          · refine Or.inl ?_
            rw [hentries, TreeMap.get_erase, if_neg heq, hmem]
        · exact Or.inr (hold p hretired)
      · obtain ⟨hmem, hnot⟩ := mem_diff hp
        rw [hentries] at hmem
        exact absurd (Std.ExtTreeMap.mem_of_mem_erase (mem_entries hmem)) hnot

/-- Ids are never given back. -/
private theorem nextId_le {q q' : DurableQueue DurablePublish} {acked : Option PublishRequest}
    (hids : IdsOk q.entries q.nextId) (h : OutboxStep q q' acked) : q.nextId ≤ q'.nextId := by
  cases h with
  | same _ hnextId => exact hnextId.ge
  | put _ _ _ hnextId =>
    have := hids.le
    rw [hnextId]
    unfold saturatingSucc
    omega
  | retire _ _ _ _ hnextId => exact hnextId.ge

/-- A step within the connection that hands nothing over. -/
private theorem Inv.after (h : s.Inv) {w : PublishWorker} {acked : Option PublishRequest}
    (hw : w.Inv) (hstep : OutboxStep s.worker.store.outbox w.store.outbox acked)
    (hpending : ∀ p ∈ w.pending, p ∈ s.worker.pending ∨ p.id = s.worker.store.outbox.nextId ∧
      s.worker.store.outbox.nextId < U64_MAX) : (s.after w acked).Inv := by
  obtain ⟨hretired, hkept⟩ := h.account w acked hstep
  refine ⟨hw, hretired, hkept, h.handed, fun id hid => ⟨fun p hp => ?_, ?_⟩⟩
  · rcases hpending p hp with hp | ⟨hp, hlt⟩
    · exact (h.later id hid).1 p hp
    · have := (h.later id hid).2
      rw [hp]
      unfold saturatingSucc at this
      omega
  · exact (h.later id hid).2.trans (nextId_le h.worker.ids hstep)

/-- A step that starts a connection anew. -/
private theorem Inv.renew (h : s.Inv) {w : PublishWorker} (hw : w.Inv)
    (hstore : w.store = s.worker.store) : PublishState.Inv { s.after w none with handed := [] } := by
  obtain ⟨hretired, hkept⟩ := h.account w none (hstore ▸ .same rfl rfl)
  exact ⟨hw, hretired, hkept, List.Pairwise.nil, nofun⟩

private theorem Inv.acknowledge (h : s.Inv) (qos : StoredDelivery) (pkid : Nat) :
    (s.acknowledge qos pkid).Inv := by
  unfold PublishState.acknowledge
  split
  · exact h
  · next p request hfind =>
    split
    · obtain ⟨hw, hstep, hpending⟩ := h.worker.pubAck hfind
      exact h.after hw hstep fun p hp => Or.inl (hpending ▸ hp)
    · exact h

/-- Every step in turn keeps the invariant. -/
theorem inv_step (store : DurableMqttStore) (s : PublishState) (step : PublishStep) (h : s.Inv)
    (hturn : WritesInTurn s step) : ((publishMachine store).step s step).Inv := by
  cases step with
  | publish command =>
    obtain ⟨hw, hstep, hpending⟩ := h.worker.acceptPublish command hturn
    exact h.after hw hstep hpending
  | flushPending accepts =>
    obtain ⟨n, hn⟩ := PublishWorker.flushPending_spec accepts s.worker
    have hw := h.worker.flushPending accepts
    have hstore : (s.worker.flushPending accepts).store = s.worker.store := by rw [hn]
    obtain ⟨hretired, hkept⟩ := h.account (s.worker.flushPending accepts) none
      (hstore ▸ .same rfl rfl)
    have hpend : (s.worker.pending.map (·.id)).Pairwise (· < ·) :=
      (List.pairwise_append.mp h.worker.sorted).2.1
    rw [← List.take_append_drop n s.worker.pending, List.map_append, List.pairwise_append] at hpend
    have hhanded : (s.worker.flushPending accepts).publishWaitingForWrite.drop
        s.worker.publishWaitingForWrite.length = (s.worker.pending.take n).map (·.id) := by
      rw [hn]
      exact List.drop_left
    refine ⟨hw, hretired, hkept, ?_, fun id hid => ⟨fun p hp => ?_, ?_⟩⟩
    · -- the handed ids stay in order: what is handed over now was pending behind them
      simp only [publishMachine, hhanded]
      refine List.pairwise_append.mpr ⟨h.handed, hpend.1, fun id hid n' hn' => ?_⟩
      obtain ⟨p, hp, rfl⟩ := List.mem_map.mp hn'
      exact (h.later id hid).1 p (List.mem_of_mem_take hp)
    · -- and are below those still pending
      have hp' : p ∈ s.worker.pending.drop n := by
        simp only [publishMachine, PublishState.after, hn] at hp
        exact hp
      simp only [publishMachine, hhanded] at hid
      rcases List.mem_append.mp hid with hid | hid
      · exact (h.later id hid).1 p (List.mem_of_mem_drop hp')
      · exact hpend.2.2 id hid p.id (List.mem_map_of_mem hp')
    · -- and below the next id of the store
      simp only [publishMachine, hhanded] at hid
      simp only [publishMachine, PublishState.after, hstore]
      rcases List.mem_append.mp hid with hid | hid
      · exact (h.later id hid).2
      · obtain ⟨p, hp, rfl⟩ := List.mem_map.mp hid
        obtain ⟨item, hitem, -⟩ := h.worker.pending p (List.mem_of_mem_take hp)
        exact h.worker.ids.succ_le p.id (mem_entries hitem)
  | generationReady =>
    simp only [publishMachine]
    -- the worker starts to use the new generation
    split
    · exact h.after ⟨h.worker.ids, h.worker.sorted, h.worker.cover, h.worker.pending,
        h.worker.aligned, h.worker.inflight, h.worker.pkids, h.worker.sources, h.worker.offline⟩
        (.same rfl rfl) fun p hp => Or.inl hp
    · exact h
  | write pkid =>
    simp only [publishMachine]
    split
    · exact h
    · -- only the packet ids that may be used are written
      next request requests hrequests =>
      split
      · next hpkid =>
        obtain ⟨hw, hstep, hpending⟩ := h.worker.write hrequests hpkid
          (hturn request (by rw [hrequests]; rfl))
        exact h.after hw hstep fun p hp => Or.inl (hpending ▸ hp)
      · exact h
  | pubAck pkid => exact h.acknowledge .atLeastOnce pkid
  | pubComp pkid => exact h.acknowledge .exactlyOnce pkid
  | connAck =>
    simp only [publishMachine]
    split
    · exact h
    · next hoff => exact h.renew (h.worker.connAck (Bool.eq_false_iff.mpr hoff)) rfl
  | pollError => exact h.renew h.worker.pollError rfl
  | restart => exact h.renew (PublishWorker.inv_start h.worker.ids) rfl

theorem inv_init {store : DurableMqttStore}
    (h : IdsOk store.outbox.entries store.outbox.nextId) : (publishMachine store).init.Inv where
  worker := PublishWorker.inv_start h
  retired := nofun
  kept _ hp := Or.inl (TreeMap.mem_toList.mp hp)
  handed := List.Pairwise.nil
  later := nofun

/-- The invariant gives what the publish path promises. -/
theorem Inv.safe (h : s.Inv) : s.Safe where
  retired := h.retired
  kept := h.kept
  tracked := ⟨h.worker.sorted.imp Nat.ne_of_lt, h.worker.cover⟩
  handed := h.handed

end PublishState

/-- In every run over a store whose ids are in use below its next id, a run in which no outbox item
    waits behind a transient publish that is written, an item is retired when the broker acknowledges
    a PUBLISH with its message, every other one is still in the outbox and in exactly one of the
    worker's structures, and within a connection each is handed over once and in order. -/
theorem publishes_retired_by_ack (store : DurableMqttStore)
    (hids : IdsOk store.outbox.entries store.outbox.nextId) (steps : List PublishStep)
    (hturn : (publishMachine store).Steps WritesInTurn (publishMachine store).init steps) :
    ((publishMachine store).run steps).Safe :=
  (Machine.invariant_runFrom (PublishState.inv_step store) (PublishState.inv_init hids) hturn).safe

/-! ## A transient publish in front -/

/-- A publish of this topic, quality of service and no payload. -/
def publishOf (topic : String) (delivery : StoredDelivery) : PublishCommand :=
  { topic := topic.toList, payload := [], retain := false, delivery }

/-- A transient publish is accepted, then an item of the outbox is handed over, and the client writes
    the first of them. -/
def transientFirst : List PublishStep :=
  [.connAck, .generationReady, .publish (publishOf "a" .atMostOnce),
    .publish (publishOf "b" .atLeastOnce), .flushPending 64, .write 0]

/-- The item is retired although its PUBLISH is not written yet. -/
theorem transient_retires_item :
    ¬ ∀ steps, ((publishMachine emptyStore).run steps).Safe := by
  intro hall
  have hretired := (hall transientFirst).retired
  have hbad : ¬ ∀ x ∈ ((publishMachine emptyStore).run transientFirst).retired,
      x.item.delivery ≠ .atMostOnce → x.acked.isSome = true := by
    decide +kernel
  refine hbad fun x hx hne => ?_
  obtain ⟨request, hrequest, -⟩ := hretired x hx hne
  rw [hrequest]
  rfl

/-- The same publishes in the other order, up to the acknowledgement. -/
def itemFirst : List PublishStep :=
  [.connAck, .generationReady, .publish (publishOf "b" .atLeastOnce), .flushPending 64,
    .publish (publishOf "a" .atMostOnce), .write 1, .write 0, .pubAck 1]

instance (s : PublishState) (step : PublishStep) : Decidable (WritesInTurn s step) :=
  match step with
  | .publish _ => inferInstanceAs (Decidable (_ → _))
  | .write _ =>
    match h : s.worker.client.requests.head? with
    | none => isTrue fun _ hrequest => nomatch h.symm.trans hrequest
    | some request =>
      decidable_of_iff (request.source = none → s.worker.publishWaitingForWrite = [])
        ⟨fun hturn _ hrequest => Option.some.inj (h.symm.trans hrequest) ▸ hturn,
          fun hturn => hturn request h⟩
  | .flushPending _ | .generationReady | .pubAck _ | .pubComp _ | .connAck | .pollError | .restart =>
    isTrue trivial

theorem publishes_retired_by_ack_itemFirst :
    ((publishMachine emptyStore).run itemFirst).Safe :=
  publishes_retired_by_ack emptyStore
    ⟨Nat.le_refl _, by decide, nofun, nofun⟩ itemFirst (by decide +kernel)

end TeamClu.Mqtt
