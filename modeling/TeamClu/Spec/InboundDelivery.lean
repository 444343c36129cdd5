import TeamClu.ForStd.Machine
import TeamClu.Spec.InboundEffects
import TeamClu.Spec.StoreJson

/-!
# A stored message reaches the executor until it is settled

The store, a worker that comes and goes, the supervisor's queue of dispositions and the daemon's executor, with the
channels between them, in every order of their steps.  All input and output of the store succeeds.

Key results:
* `inbound_kept`: what was acknowledged to the broker has been put in the inbox, a message leaves the inbox only when
  the executor has settled it or has dead-lettered one of the same content, and the executor is given the messages
  of the inbox as they came.
* `nothing_stranded`: while a worker runs, every message of its inbox is on its way to the executor or back, or has
  a retry deadline, or a full queue has refused its disposition.
* `retried_in_time`: 30 seconds later, a pass of the worker has sent off every message that was left.
-/

namespace TeamClu.Mqtt

open DurableQueue

/-! ## The machine -/

/-- The inbound path, with what happened so far. -/
structure InboundWorld where
  files : StoreFiles := {}
  worker : Option InboundWorker := none
  /-- The channel to the daemon, which all workers share. -/
  inbound : List MqttInbound := []
  /-- What the executor works on. -/
  executing : Option MqttInbound := none
  /-- The channel from the daemon to the supervisor. -/
  dispositions : List (Nat × MqttInboundDisposition) := []
  pendingDispositions : List (Nat × MqttInboundDisposition) := []
  now : Nat := 0
  /-- The messages that were put in the inbox. -/
  admitted : List (Nat × DurableInbound) := []
  /-- The publishes that were acknowledged to the broker. -/
  acked : List (IncomingFrame × Option Str) := []
  /-- Every disposition that the executor sent. -/
  sent : List (Nat × MqttInboundDisposition) := []
  /-- The ids whose disposition the supervisor had no room for, since the worker started. -/
  refused : List Nat := []

/-- What can happen next. -/
inductive InboundEvent
  /-- The supervisor starts a worker, if it has none. -/
  | startWorker (sizes : StoreSizes)
  /-- The worker ends, for whatever reason. -/
  | workerExits
  /-- The process ends, and with it all that is not in a file. -/
  | daemonExits
  | wait (ms : Nat)
  | publish (frame : IncomingFrame) (messageId : Option Str)
  /-- The head of the worker's loop, where the retries that are due come in this order. -/
  | pass (due : List Nat)
  /-- The worker takes the next disposition. -/
  | handle
  /-- The worker's publish path writes to the same store. -/
  | enqueuePublish (publish : DurablePublish) (uuid : Str)
  | ackPublish (id : Nat)
  /-- The executor takes the next message. -/
  | receive
  /-- The executor is done with its message. -/
  | finish (outcome : HandlerOutcome)
  /-- The supervisor takes the next disposition. -/
  | takeDisposition
  /-- The supervisor hands its dispositions to the worker. -/
  | giveDispositions

namespace InboundWorld

/-- The world after a step of the worker. -/
def after (w : InboundWorld) (v : InboundWorker) : InboundWorld := { w with files := v.store.files, worker := some v }

/-- The worker takes a publish: what it stages is new in the inbox. -/
def publish (w : InboundWorld) (v : InboundWorker) (frame : IncomingFrame) (messageId : Option Str) : InboundWorld :=
  let (v', acked) := v.incomingPublish frame messageId
  { w.after v' with
    admitted := w.admitted ++
      (v'.inboundStaging.drop v.inboundStaging.length).map fun m => (m.id, m.frame.toInbound messageId)
    acked := if acked then w.acked ++ [(frame, messageId)] else w.acked }

/-- The head of the worker's loop; the order must be one of the ids that are due. -/
def pass (w : InboundWorld) (v : InboundWorker) (due : List Nat) : InboundWorld :=
  if due.isPerm (v.dueIds w.now) then
    let v := v.flushDueInboundRetries due w.now
    let (inboundStaging, inbound) := flushInbound v.inboundStaging w.inbound
    { w.after { v with inboundStaging } with inbound }
  else w

/-- The worker takes the next disposition, and exits when it cannot write it down. -/
def handle (w : InboundWorld) (v : InboundWorker) : InboundWorld :=
  match v.dispositionRx with
  | [] => w
  | (id, disposition) :: dispositionRx =>
    match { v with dispositionRx }.handleInboundDisposition id disposition w.now with
    | (v, .ok ()) => w.after v
    | (v, .error _) => { w.after v with worker := none }

/-- One step. -/
def step (serde : StoreSerde) (w : InboundWorld) : InboundEvent → InboundWorld
  | .startWorker sizes =>
    match w.worker, DurableMqttStore.openAt serde w.files sizes with
    | none, .ok store => { w.after (InboundWorker.start store) with refused := [] }
    | _, _ => w
  | .workerExits => { w with worker := none }
  | .daemonExits =>
    { w with worker := none, inbound := [], executing := none, dispositions := [], pendingDispositions := [] }
  | .wait ms => { w with now := w.now + ms }
  | .publish frame messageId => w.worker.elim w fun v => w.publish v frame messageId
  | .pass due => w.worker.elim w fun v => w.pass v due
  | .handle => w.worker.elim w fun v => w.handle v
  | .enqueuePublish publish uuid =>
    w.worker.elim w fun v => w.after { v with store := (v.store.enqueuePublish publish uuid).1 }
  | .ackPublish id => w.worker.elim w fun v => w.after { v with store := (v.store.ackPublish id).1 }
  | .receive =>
    match w.executing, w.inbound with
    | none, m :: inbound => { w with executing := some m, inbound }
    | _, _ => w
  | .finish outcome =>
    match w.executing with
    | some m =>
      if w.dispositions.length < INBOUND_CAPACITY then
        { w with executing := none, dispositions := w.dispositions ++ [(m.id, outcome.disposition)]
                 sent := w.sent ++ [(m.id, outcome.disposition)] }
      else w
    | none => w
  | .takeDisposition =>
    match w.dispositions with
    | [] => w
    | d :: dispositions =>
      if w.pendingDispositions.length ≥ WORKER_DISPOSITION_CAPACITY then
        { w with dispositions, refused := w.refused ++ [d.1] }
      else { w with dispositions, pendingDispositions := w.pendingDispositions ++ [d] }
  | .giveDispositions =>
    w.worker.elim w fun v =>
      let (pendingDispositions, dispositionRx) := flushDispositions w.pendingDispositions v.dispositionRx
      { w with worker := some { v with dispositionRx }, pendingDispositions }

/-! ## What is promised -/

/-- The messages on their way to the executor, with the one it works on. -/
def messages (w : InboundWorld) : List MqttInbound :=
  (w.worker.elim [] fun v => v.inboundStaging) ++ w.inbound ++ w.executing.toList

/-- The dispositions on their way to the worker. -/
def returning (w : InboundWorld) : List (Nat × MqttInboundDisposition) :=
  (w.worker.elim [] fun v => v.dispositionRx) ++ w.pendingDispositions ++ w.dispositions

/-- The message of this id is not forgotten. -/
def OnItsWay (w : InboundWorld) (v : InboundWorker) (id : Nat) : Prop :=
  id ∈ w.messages.map (·.id) ∨ id ∈ w.returning.map (·.1) ∨ id ∈ v.inboundRetryDeadlines ∨ id ∈ w.refused

/-- The executor has settled the message, or has dead-lettered one of the same content. -/
def Settled (w : InboundWorld) (id : Nat) (item : DurableInbound) : Prop :=
  (id, .ack) ∈ w.sent ∨ (∃ reason, (id, .deadLetter reason) ∈ w.sent) ∨
    ∃ p ∈ w.admitted, sameInbound item p.2 = true ∧ ∃ reason, (p.1, .deadLetter reason) ∈ w.sent

/-- A message of this key was admitted: itself, or one that it is a redelivery of. -/
def Took (w : InboundWorld) (item : DurableInbound) : Prop :=
  ∃ p ∈ w.admitted, p.2 = item ∨ item.key.isSome ∧ p.2.key = item.key

/-- The log of the inbox holds this message. -/
def InLog (w : InboundWorld) (id : Nat) (item : DurableInbound) : Prop :=
  ∃ rs, w.files.inbox = logBytes (LogRecord.text DurableInbound.text) rs ∧ (replay rs).entries[id]? = some item

/-- What the inbound path promises for the messages it was sent. -/
structure Kept (w : InboundWorld) : Prop where
  /-- The broker is told only of what was put in the inbox. -/
  acked : ∀ a ∈ w.acked, w.Took (a.1.toInbound a.2)
  /-- A message stays in the log until it is settled; only the last of all ids is given twice. -/
  kept : ∀ p ∈ w.admitted, p.1 ≠ U64_MAX → w.InLog p.1 p.2 ∨ w.Settled p.1 p.2
  /-- The executor is given what was put in the inbox, as it came. -/
  stored : ∀ m ∈ w.messages, ∃ item, (m.id, item) ∈ w.admitted ∧ m.frame = item.toFrame

/-- While a worker runs, every message of its inbox is on its way. -/
def NothingStranded (w : InboundWorld) : Prop :=
  ∀ v, w.worker = some v → ∀ id item, Pending v.store id item → w.OnItsWay v id

/-- No retry is left behind: every pending message is in flight, or its disposition was refused. -/
def NoRetryLeft (w : InboundWorld) (store : DurableMqttStore) : Prop :=
  ∀ id item, Pending store id item →
    id ∈ w.messages.map (·.id) ∨ id ∈ w.returning.map (·.1) ∨ id ∈ w.refused

end InboundWorld

/-- The runs of the inbound path, from no file at all. -/
def inboundMachine (serde : StoreSerde) : Machine InboundWorld InboundEvent where
  init := {}
  step := InboundWorld.step serde

/-! ## The invariant -/

open InboundWorld

/-- What the store holds, and what happened. -/
private structure InboxInv (w : InboundWorld) (s : DurableMqttStore) : Prop where
  logged : StoreLogged written s
  files : w.files = s.files
  admitted : ∀ {id item}, Pending s id item → (id, item) ∈ w.admitted
  kept : ∀ p ∈ w.admitted, p.1 ≠ U64_MAX → Pending s p.1 p.2 ∨ w.Settled p.1 p.2
  letters : ∀ (i : Nat) (letter : DurableDeadLetter), s.deadLetter.entries[i]? = some letter →
    ∃ p ∈ w.admitted, p.2 = letter.inbound ∧ ∃ reason, (p.1, .deadLetter reason) ∈ w.sent
  keys : ∀ key ∈ s.inboundDedup.keys, ∃ p ∈ w.admitted, p.2.key = some key
  acked : ∀ a ∈ w.acked, w.Took (a.1.toInbound a.2)

/-- Everything that is in flight comes from the inbox or from the executor, and no pending message is forgotten. -/
private structure InboundInv (w : InboundWorld) : Prop where
  inbox : ∃ s, InboxInv w s ∧ ∀ v, w.worker = some v → v.store = s
  ways : ∀ v, w.worker = some v → ∀ id item, Pending v.store id item → w.OnItsWay v id
  stored : ∀ m ∈ w.messages, ∃ item, (m.id, item) ∈ w.admitted ∧ m.frame = item.toFrame
  sent : ∀ d ∈ w.returning, d ∈ w.sent
  deadlines : ∀ v, w.worker = some v → ∀ (id deadline : Nat), v.inboundRetryDeadlines[id]? = some deadline →
    deadline ≤ w.now + INBOUND_RETRY_MAX

private theorem InboundWorld.Settled.mono {w w' : InboundWorld} {id : Nat} {item : DurableInbound}
    (hadmitted : w.admitted ⊆ w'.admitted) (hsent : w.sent ⊆ w'.sent) (h : w.Settled id item) :
    w'.Settled id item := by
  rcases h with hack | ⟨reason, hdead⟩ | ⟨p, hp, hsame, reason, hdead⟩
  · exact .inl (hsent hack)
  · exact .inr (.inl ⟨reason, hsent hdead⟩)
  · exact .inr (.inr ⟨p, hadmitted hp, hsame, reason, hsent hdead⟩)

private theorem InboundWorld.Took.mono {w w' : InboundWorld} {item : DurableInbound}
    (hadmitted : w.admitted ⊆ w'.admitted) (h : w.Took item) : w'.Took item := by
  obtain ⟨p, hp, heq⟩ := h
  exact ⟨p, hadmitted hp, heq⟩

/-- A store with the same inbox, and a world in which no message came in. -/
private theorem InboxInv.same {w w' : InboundWorld} {s s' : DurableMqttStore} (h : InboxInv w s)
    (hlogged : StoreLogged written s') (hfiles : w'.files = s'.files) (hinbox : s'.inbox = s.inbox)
    (hdead : s'.deadLetter = s.deadLetter) (hdedup : s'.inboundDedup = s.inboundDedup)
    (hadmitted : w'.admitted = w.admitted) (hacked : w'.acked = w.acked) (hsent : w.sent ⊆ w'.sent) :
    InboxInv w' s' where
  logged := hlogged
  files := hfiles
  admitted hp := by
    rw [hadmitted]
    exact h.admitted (by rwa [Pending, hinbox] at hp)
  kept p hp hid := by
    rw [hadmitted] at hp
    rw [Pending, hinbox]
    exact (h.kept p hp hid).imp id (Settled.mono (by rw [hadmitted]; exact fun _ => id) hsent)
  letters i letter hletter := by
    rw [hdead] at hletter
    obtain ⟨p, hp, heq, reason, hin⟩ := h.letters i letter hletter
    exact ⟨p, hadmitted ▸ hp, heq, reason, hsent hin⟩
  keys key hkey := by
    rw [hdedup] at hkey
    rw [hadmitted]
    exact h.keys key hkey
  acked a ha := by
    rw [hacked] at ha
    exact Took.mono (by rw [hadmitted]; exact fun _ => id) (h.acked a ha)

/-- A step that only moves messages and dispositions along. -/
private theorem InboundInv.move {w w' : InboundWorld} (h : InboundInv w) (hfiles : w'.files = w.files)
    (hworker : ∀ v', w'.worker = some v' → ∃ v, w.worker = some v ∧ v'.store = v.store ∧
      v'.inboundRetryDeadlines = v.inboundRetryDeadlines)
    (hadmitted : w'.admitted = w.admitted) (hacked : w'.acked = w.acked) (hsent : w.sent ⊆ w'.sent)
    (hnow : w.now ≤ w'.now) (hmessages : w'.messages ⊆ w.messages)
    (hreturning : ∀ d ∈ w'.returning, d ∈ w.returning ∨ d ∈ w'.sent)
    (hway : w'.worker.isSome → ∀ id,
      (∃ m ∈ w.messages, m.id = id) ∨ (∃ d ∈ w.returning, d.1 = id) ∨ id ∈ w.refused →
      (∃ m ∈ w'.messages, m.id = id) ∨ (∃ d ∈ w'.returning, d.1 = id) ∨ id ∈ w'.refused) :
    InboundInv w' := by
  obtain ⟨s, hs, hstore⟩ := h.inbox
  refine ⟨⟨s, hs.same hs.logged (hfiles.trans hs.files) rfl rfl rfl hadmitted hacked hsent, ?_⟩, ?_, ?_, ?_, ?_⟩
  · intro v' hv'
    obtain ⟨v, hv, heq, -⟩ := hworker v' hv'
    exact heq.trans (hstore v hv)
  · intro v' hv' id item hpend
    obtain ⟨v, hv, heq, hdl⟩ := hworker v' hv'
    have hnew := hway (by rw [hv']; rfl) id
    have hold := h.ways v hv id item (heq ▸ hpend)
    simp only [OnItsWay, List.mem_map, hdl] at hold ⊢
    -- a deadline stays where it is, and what was in flight still is
    have hto := fun hin => or_congr_right or_left_comm |>.mp (or_left_comm.mp (.inr (hnew hin) :
      id ∈ v.inboundRetryDeadlines ∨ _))
    rcases hold with hin | hin | hin | hin
    · exact hto (.inl hin)
    · exact hto (.inr (.inl hin))
    · exact .inr (.inr (.inl hin))
    · exact hto (.inr (.inr hin))
  · intro m hm
    rw [hadmitted]
    exact h.stored m (hmessages hm)
  · intro d hd
    exact (hreturning d hd).elim (fun hin => hsent (h.sent d hin)) id
  · intro v' hv' id deadline hid
    obtain ⟨v, hv, -, hdl⟩ := hworker v' hv'
    have := h.deadlines v hv id deadline (hdl ▸ hid)
    omega

/-! ## The steps -/

/-- A worker that has opened the store again. -/
private theorem InboundInv.startWorker {serde : StoreSerde} {w : InboundWorld} (h : InboundInv w) (sizes : StoreSizes) :
    InboundInv (w.step serde (.startWorker sizes)) := by
  obtain ⟨s, hs, -⟩ := h.inbox
  rw [InboundWorld.step]
  split
  case h_2 => exact h
  next store hworker hopen =>
  rw [hs.files] at hopen
  rcases openAt_spec serde isLimit_written hs.logged sizes with ⟨-, e, herr⟩ |
    ⟨s', hok, hlogged, -, hdead, hpend, hkeys⟩
  · rw [hopen] at herr
    exact nomatch herr
  obtain rfl : store = s' := Except.ok.inj (hopen.symm.trans hok)
  -- what is pending now was pending, and is staged
  have hfrom {id item} (hp : Pending store id item) : (id, item) ∈ w.admitted :=
    hs.admitted ((hpend id item).mp hp).1
  have hload {m : MqttInbound} : m ∈ loadPendingInbound store ↔
      ∃ item, Pending store m.id item ∧ m.frame = item.toFrame := by
    simp only [loadPendingInbound, DurableQueue.values, List.mem_map, Prod.exists, TreeMap.mem_toList, Pending]
    constructor
    · rintro ⟨id, item, hitem, rfl⟩
      exact ⟨item, hitem, rfl⟩
    · rintro ⟨item, hitem, hframe⟩
      exact ⟨m.id, item, hitem, by rw [← hframe]⟩
  refine ⟨⟨store, ⟨hlogged, rfl, hfrom, ?_, ?_, ?_, hs.acked⟩, ?_⟩, ?_, ?_, ?_, ?_⟩
  · -- a message that is not staged again has the content of a dead letter
    intro p hp hid
    rcases hs.kept p hp hid with hold | hset
    · cases hlet : isDeadLettered s.deadLetter p.2 with
      | false => exact .inl ((hpend p.1 p.2).mpr ⟨hold, hlet⟩)
      | true =>
        simp only [isDeadLettered, DurableQueue.values, List.any_eq_true, Prod.exists, TreeMap.mem_toList] at hlet
        obtain ⟨i, letter, hletter, hsame⟩ := hlet
        obtain ⟨q, hq, heq, reason, hin⟩ := hs.letters i letter hletter
        exact .inr (.inr (.inr ⟨q, hq, heq ▸ hsame, reason, hin⟩))
    · exact .inr hset
  · rw [hdead]
    exact hs.letters
  · intro key hkey
    obtain ⟨id, item, hp, hk⟩ := (hkeys key).mp hkey
    exact ⟨(id, item), hfrom hp, hk⟩
  · rintro v ⟨rfl⟩
    rfl
  · rintro v ⟨rfl⟩ id item hp
    refine .inl (List.mem_map.mpr ⟨⟨id, item.toFrame⟩, ?_, rfl⟩)
    simp only [messages, after, InboundWorker.start, Option.elim_some, List.mem_append]
    exact .inl (.inl (hload.mpr ⟨item, hp, rfl⟩))
  · intro m hm
    have hm : m ∈ loadPendingInbound store ++ (w.inbound ++ w.executing.toList) := by
      rwa [← List.append_assoc]
    rcases List.mem_append.mp hm with hm | hm
    · obtain ⟨item, hp, hframe⟩ := hload.mp hm
      exact ⟨item, hfrom hp, hframe⟩
    · refine h.stored m ?_
      rw [messages, hworker]
      exact hm
  · intro d hd
    refine h.sent d ?_
    rw [returning, hworker]
    exact hd
  · rintro v ⟨rfl⟩ id deadline hid
    simp only [InboundWorker.start, Std.ExtTreeMap.getElem?_empty] at hid
    cases hid

private theorem InboundWorld.OnItsWay.mono {w w' : InboundWorld} {v v' : InboundWorker} {id : Nat}
    (h : w.OnItsWay v id) (hmessages : w.messages ⊆ w'.messages) (hreturning : w.returning ⊆ w'.returning)
    (hdeadlines : id ∈ v.inboundRetryDeadlines → id ∈ v'.inboundRetryDeadlines)
    (hrefused : w.refused ⊆ w'.refused) : w'.OnItsWay v' id := by
  rcases h with hin | hin | hin | hin
  · exact .inl (List.map_subset _ hmessages hin)
  · exact .inr (.inl (List.map_subset _ hreturning hin))
  · exact .inr (.inr (.inl (hdeadlines hin)))
  · exact .inr (.inr (.inr (hrefused hin)))

/-- A publish of the broker. -/
private theorem InboundInv.publish {w : InboundWorld} {v : InboundWorker} (h : InboundInv w) (hv : w.worker = some v)
    (frame : IncomingFrame) (messageId : Option Str) : InboundInv (w.publish v frame messageId) := by
  obtain ⟨s, hs, hstore⟩ := h.inbox
  obtain rfl := hstore v hv
  have hmessages : w.messages = v.inboundStaging ++ w.inbound ++ w.executing.toList := by
    rw [messages, hv, Option.elim_some]
  have hreturning : w.returning = v.dispositionRx ++ w.pendingDispositions ++ w.dispositions := by
    rw [returning, hv, Option.elim_some]
  rcases incomingPublish_spec hs.logged frame messageId with ⟨rebuild, acked, heq, hacked⟩ | ⟨s', heq, hadmits⟩
  · -- no new message
    rw [InboundWorld.publish, heq]
    simp only [List.drop_length, List.map_nil, List.append_nil]
    refine ⟨⟨v.store, ⟨hs.logged, rfl, hs.admitted, hs.kept, hs.letters, hs.keys, ?_⟩, ?_⟩, ?_, ?_, ?_, ?_⟩
    · split_ifs with htold
      · -- one of its key is there
        refine List.forall_mem_append.mpr ⟨hs.acked, List.forall_mem_singleton.mpr ?_⟩
        obtain ⟨key, hkey, hthere⟩ := hacked htold
        obtain ⟨p, hp, hk⟩ : ∃ p ∈ w.admitted, p.2.key = some key :=
          hthere.elim (hs.keys key) fun ⟨id, item, hp, hk⟩ => ⟨(id, item), hs.admitted hp, hk⟩
        exact ⟨p, hp, .inr ⟨by rw [hkey]; rfl, by rw [hk, hkey]⟩⟩
      · exact hs.acked
    · rintro v' ⟨rfl⟩
      rfl
    · rintro v' ⟨rfl⟩ i item hp
      refine (h.ways v hv i item hp).mono ?_ ?_ id fun _ => id
      · rw [hmessages]
        exact fun _ => id
      · rw [hreturning]
        exact fun _ => id
    · exact fun m hm => h.stored m (by rw [hmessages]; exact hm)
    · exact fun d hd => h.sent d (by rw [hreturning]; exact hd)
    · rintro v' ⟨rfl⟩ id deadline hid
      exact h.deadlines v hv id deadline hid
  · rw [InboundWorld.publish, heq]
    simp only [List.drop_left, List.map_singleton, if_true]
    have hids := hs.logged.inbox.ids
    refine ⟨⟨s', ⟨hadmits.logged, rfl, ?_, ?_, ?_, ?_, ?_⟩, ?_⟩, ?_, ?_, ?_, ?_⟩
    · intro id item hp
      rw [hadmits.pending] at hp
      split_ifs at hp with hid
      · rw [hp, hid]
        exact List.mem_append_right _ List.mem_cons_self
      · exact List.mem_append_left _ (hs.admitted hp)
    · refine List.forall_mem_append.mpr ⟨fun p hp hid => ?_, List.forall_mem_singleton.mpr fun _ => .inl ?_⟩
      · refine (hs.kept p hp hid).imp (fun hpend => ?_) (Settled.mono (List.subset_append_left _ _) fun _ => id)
        -- an id is used again only when it is the last one
        rw [hadmits.pending, if_neg]
        · exact hpend
        · intro heq
          have hle := hids.succ_le p.1 (Std.ExtTreeMap.mem_iff_isSome_getElem?.mpr (by rw [hpend]; rfl))
          have hmax := hids.le
          unfold saturatingSucc at hle
          omega
      · rw [hadmits.pending, if_pos rfl]
    · intro i letter hletter
      rw [hadmits.letters] at hletter
      obtain ⟨p, hp, hrest⟩ := hs.letters i letter hletter
      exact ⟨p, List.mem_append_left _ hp, hrest⟩
    · intro key hkey
      rcases hadmits.keys key hkey with hk | hk
      · exact ⟨_, List.mem_append_right _ List.mem_cons_self, hk⟩
      · obtain ⟨p, hp, hrest⟩ := hs.keys key hk
        exact ⟨p, List.mem_append_left _ hp, hrest⟩
    · refine List.forall_mem_append.mpr ⟨fun a ha => ?_, List.forall_mem_singleton.mpr ?_⟩
      · exact Took.mono (List.subset_append_left _ _) (hs.acked a ha)
      · exact ⟨_, List.mem_append_right _ List.mem_cons_self, .inl rfl⟩
    · rintro v' ⟨rfl⟩
      rfl
    · rintro v' ⟨rfl⟩ i item hp
      rw [hadmits.pending] at hp
      split_ifs at hp with hid
      · refine .inl (List.mem_map.mpr ⟨⟨v.store.inbox.nextId, frame⟩, ?_, hid.symm⟩)
        simp [messages, after]
      · refine (h.ways v hv i item hp).mono ?_ ?_ id fun _ => id
        · intro m hm
          simp only [hmessages, List.mem_append] at hm
          simp only [messages, after, Option.elim_some, List.mem_append]
          exact hm.imp (fun hm => hm.imp .inl fun hm => hm) fun hm => hm
        · rw [hreturning]
          exact fun _ => id
    · intro m hm
      simp only [messages, after, Option.elim_some, List.mem_append, List.mem_singleton] at hm
      rcases hm with ((hm | rfl) | hm) | hm
      case inl.inl.inr => exact ⟨_, List.mem_append_right _ List.mem_cons_self, rfl⟩
      all_goals
        obtain ⟨item, hitem, hframe⟩ := h.stored m (by simp only [hmessages, List.mem_append]; tauto)
        exact ⟨item, List.mem_append_left _ hitem, hframe⟩
    · exact fun d hd => h.sent d (by rw [hreturning]; exact hd)
    · rintro v' ⟨rfl⟩ id deadline hid
      exact h.deadlines v hv id deadline hid

/-- The head of the worker's loop. -/
private theorem InboundInv.pass {w : InboundWorld} {v : InboundWorker} (h : InboundInv w) (hv : w.worker = some v)
    (due : List Nat) : InboundInv (w.pass v due) := by
  obtain ⟨s, hs, hstore⟩ := h.inbox
  obtain rfl := hstore v hv
  unfold InboundWorld.pass
  split_ifs
  case neg => exact h
  have hflushed := flushDueInboundRetries_spec w.now v due
  dsimp only
  generalize v.flushDueInboundRetries due w.now = v₁ at hflushed ⊢
  have happend := flushInbound_append v₁.inboundStaging w.inbound
  generalize flushInbound v₁.inboundStaging w.inbound = moved at happend ⊢
  obtain ⟨staging, inbound⟩ := moved
  -- the messages are those of before, with the retries
  have hmem (m : MqttInbound) : (m ∈ staging ∨ m ∈ inbound) ↔ m ∈ w.inbound ∨ m ∈ v₁.inboundStaging := by
    have happend : inbound ++ staging = w.inbound ++ v₁.inboundStaging := happend
    rw [or_comm, ← List.mem_append, happend, List.mem_append]
  have hmessages (m : MqttInbound) :
      m ∈ ({ w.after { v₁ with inboundStaging := staging } with inbound } : InboundWorld).messages ↔
        m ∈ v₁.inboundStaging ∨ m ∈ w.inbound ∨ m ∈ w.executing.toList := by
    simp only [messages, after, Option.elim_some, List.mem_append, hmem]
    tauto
  obtain ⟨new, hnew, hfrom⟩ := hflushed.staged
  have hold : w.messages = v.inboundStaging ++ w.inbound ++ w.executing.toList := by
    rw [messages, hv, Option.elim_some]
  have hreturning : w.returning = v.dispositionRx ++ w.pendingDispositions ++ w.dispositions := by
    rw [returning, hv, Option.elim_some]
  refine ⟨⟨v.store, hs.same hs.logged ?_ rfl rfl rfl rfl rfl (fun _ => id), ?_⟩, ?_, ?_, ?_, ?_⟩
  · exact congrArg DurableMqttStore.files hflushed.store
  · rintro v' ⟨rfl⟩
    exact hflushed.store
  · rintro v' ⟨rfl⟩ i item hp
    have hp : Pending v.store i item := hflushed.store ▸ hp
    rcases h.ways v hv i item hp with hin | hin | hin | hin
    · obtain ⟨m, hm, rfl⟩ := List.mem_map.mp hin
      refine .inl (List.mem_map.mpr ⟨m, (hmessages m).mpr ?_, rfl⟩)
      simp only [hold, List.mem_append, or_assoc] at hm
      rw [hnew, List.mem_append]
      exact hm.imp .inl id
    · refine .inr (.inl ?_)
      rw [hreturning] at hin
      simpa only [returning, after, Option.elim_some, hflushed.rx] using hin
    · rcases hflushed.kept hp hin with hin | hin
      · obtain ⟨m, hm, rfl⟩ := List.mem_map.mp hin
        exact .inl (List.mem_map.mpr ⟨m, (hmessages m).mpr (.inl hm), rfl⟩)
      · exact .inr (.inr (.inl hin))
    · exact .inr (.inr (.inr hin))
  · intro m hm
    have hm := (hmessages m).mp hm
    rw [hnew, List.mem_append, or_assoc] at hm
    rcases hm with hm | hm | hm
    · exact h.stored m (by rw [hold]; simp only [List.mem_append]; exact .inl (.inl hm))
    · obtain ⟨item, hp, hframe⟩ := hfrom m hm
      exact ⟨item, hs.admitted hp, hframe⟩
    · exact h.stored m (by rw [hold, List.append_assoc, List.mem_append, List.mem_append]; exact .inr hm)
  · intro d hd
    refine h.sent d ?_
    rw [hreturning]
    simpa only [returning, after, Option.elim_some, hflushed.rx] using hd
  · rintro v' ⟨rfl⟩ i deadline hid
    rcases hflushed.deadlines i deadline hid with hin | rfl
    · exact h.deadlines v hv i deadline hin
    · exact le_rfl

/-- The worker takes a disposition. -/
private theorem InboundInv.handle {w : InboundWorld} {v : InboundWorker} (h : InboundInv w) (hv : w.worker = some v) :
    InboundInv (w.handle v) := by
  obtain ⟨s, hs, hstore⟩ := h.inbox
  obtain rfl := hstore v hv
  unfold InboundWorld.handle
  split
  case h_1 => exact h
  next id d rx hrx =>
  have hreturning : w.returning = (id, d) :: (rx ++ w.pendingDispositions ++ w.dispositions) := by
    rw [returning, hv, Option.elim_some, hrx]
    rfl
  have hmessages : w.messages = v.inboundStaging ++ w.inbound ++ w.executing.toList := by
    rw [messages, hv, Option.elim_some]
  have hsent : (id, d) ∈ w.sent := h.sent _ (by rw [hreturning]; exact List.mem_cons_self)
  obtain ⟨v', r, heq, hhandled, hdone, hdeadlines⟩ := @handle_spec { v with dispositionRx := rx } hs.logged id d w.now
  -- the store and what happened, with or without an error
  have hbox {w' : InboundWorld} (hfiles : w'.files = v'.store.files) (hadmitted : w'.admitted = w.admitted)
      (hacked : w'.acked = w.acked) (hsame : w'.sent = w.sent) : InboxInv w' v'.store := by
    have hdis := hhandled.store
    refine ⟨hdis.logged, hfiles, ?_, ?_, ?_, ?_, ?_⟩
    · intro i item hp
      rw [hadmitted]
      exact hs.admitted (hdis.pending_of hp)
    · intro p hp hid
      rw [hadmitted] at hp
      have hmono : w.Settled p.1 p.2 → w'.Settled p.1 p.2 :=
        Settled.mono (by rw [hadmitted]; exact fun _ hin => hin) (by rw [hsame]; exact fun _ hin => hin)
      rcases hs.kept p hp hid with hpend | hset
      · by_cases hkept : p.1 ≠ id ∨ d = .retry
        · exact .inl (hdis.kept hkept hpend)
        · -- this is the message that is settled
          obtain ⟨heq, hd⟩ := not_or.mp hkept
          obtain rfl := not_not.mp heq
          refine .inr (hmono ?_)
          cases d with
          | ack => exact .inl hsent
          | retry => exact absurd rfl hd
          | deadLetter reason => exact .inr (.inl ⟨reason, hsent⟩)
      · exact .inr (hmono hset)
    · intro i letter hletter
      rw [hadmitted, hsame]
      rcases hdis.letters i letter hletter with hold | ⟨hpend, reason, rfl⟩
      · exact hs.letters i letter hold
      · exact ⟨(id, letter.inbound), hs.admitted hpend, rfl, reason, hsent⟩
    · intro key hkey
      rw [hadmitted]
      exact hs.keys key (hdis.keys key hkey)
    · intro a ha
      rw [hacked] at ha
      exact Took.mono (by rw [hadmitted]; exact fun _ hin => hin) (hs.acked a ha)
  rw [heq]
  cases r with
  | error e =>
    -- the worker exits, and its store stays as it was written
    refine ⟨⟨v'.store, hbox rfl rfl rfl rfl, nofun⟩, nofun, ?_, ?_, nofun⟩
    · intro m hm
      refine h.stored m ?_
      rw [hmessages, List.append_assoc]
      exact List.mem_append_right _ hm
    · intro d' hd'
      refine h.sent d' ?_
      rw [hreturning, List.append_assoc]
      exact List.mem_cons_of_mem _ (List.mem_append_right _ hd')
  | ok _ =>
    refine ⟨⟨v'.store, hbox rfl rfl rfl rfl, ?_⟩, ?_, ?_, ?_, ?_⟩
    · rintro v'' ⟨rfl⟩
      rfl
    · rintro v'' ⟨rfl⟩ i item hp
      have hfull : w.OnItsWay v i := h.ways v hv i item (hhandled.store.pending_of hp)
      by_cases hi : i = id
      · -- this message waits for its retry
        rcases hdone rfl with hnone | hin
        · rw [hi, Pending, hnone] at hp
          cases hp
        · exact .inr (.inr (.inl (hi ▸ hin)))
      · rcases hfull with hin | hin | hin | hin
        · left
          rw [hmessages] at hin
          simpa only [messages, after, Option.elim_some, hhandled.staging] using hin
        · right; left
          rw [hreturning, List.map_cons, List.mem_cons] at hin
          simpa only [returning, after, Option.elim_some, hhandled.rx] using hin.resolve_left hi
        · exact .inr (.inr (.inl ((hhandled.mem_deadlines i hi).mpr hin)))
        · exact .inr (.inr (.inr hin))
    · intro m hm
      refine h.stored m ?_
      rw [hmessages]
      simpa only [messages, after, Option.elim_some, hhandled.staging] using hm
    · intro d' hd'
      refine h.sent d' ?_
      rw [hreturning]
      refine List.mem_cons_of_mem _ ?_
      simpa only [returning, after, Option.elim_some, hhandled.rx] using hd'
    · rintro v'' ⟨rfl⟩ i deadline hid
      exact (hdeadlines i deadline hid).elim (h.deadlines v hv i deadline) fun hle => hle

/-- The worker's publish path, which leaves the inbox alone. -/
private theorem InboundInv.outbox {w : InboundWorld} {v : InboundWorker} (h : InboundInv w) (hv : w.worker = some v)
    {s' : DurableMqttStore} (hlogged : StoreLogged written s') (hinbox : s'.inbox = v.store.inbox)
    (hdead : s'.deadLetter = v.store.deadLetter) (hdedup : s'.inboundDedup = v.store.inboundDedup) :
    InboundInv (w.after { v with store := s' }) := by
  obtain ⟨s, hs, hstore⟩ := h.inbox
  obtain rfl := hstore v hv
  have hmessages : (w.after { v with store := s' }).messages = w.messages := by
    rw [messages, messages, hv]
    rfl
  have hreturning : (w.after { v with store := s' }).returning = w.returning := by
    rw [returning, returning, hv]
    rfl
  refine ⟨⟨s', hs.same hlogged rfl hinbox hdead hdedup rfl rfl (fun _ hin => hin), ?_⟩, ?_, ?_, ?_, ?_⟩
  · rintro v' ⟨rfl⟩
    rfl
  · rintro v' ⟨rfl⟩ i item hp
    refine (h.ways v hv i item (by rwa [Pending, ← hinbox])).mono ?_ ?_ id fun _ => id
    · rw [hmessages]
      exact fun _ => id
    · rw [hreturning]
      exact fun _ => id
  · rw [hmessages]
    exact h.stored
  · rw [hreturning]
    exact h.sent
  · rintro v' ⟨rfl⟩
    exact h.deadlines v hv

/-- Every step keeps the invariant. -/
private theorem inboundInv_step (serde : StoreSerde) {w : InboundWorld} (h : InboundInv w) (e : InboundEvent) :
    InboundInv (w.step serde e) := by
  -- the steps of the worker, when there is one
  have hworker {f : InboundWorker → InboundWorld} (hf : ∀ v, w.worker = some v → InboundInv (f v)) :
      InboundInv (w.worker.elim w f) := by
    cases hv : w.worker with
    | none => exact h
    | some v => exact hf v hv
  obtain ⟨s, hs, hstore⟩ := h.inbox
  cases e with
  | startWorker sizes => exact h.startWorker sizes
  | workerExits =>
    refine h.move rfl nofun rfl rfl (fun _ => id) le_rfl ?_ ?_ nofun
    · intro m hm
      simp only [messages, List.mem_append] at hm ⊢
      exact hm.imp (fun hm => .inr (hm.resolve_left nofun)) id
    · intro d hd
      simp only [returning, List.mem_append] at hd ⊢
      exact .inl (hd.imp (fun hd => .inr (hd.resolve_left nofun)) id)
  | daemonExits => exact h.move rfl nofun rfl rfl (fun _ => id) le_rfl nofun nofun nofun
  | wait ms =>
    exact h.move rfl (fun v' hv' => ⟨v', hv', rfl, rfl⟩) rfl rfl (fun _ => id) (Nat.le_add_right _ _) (fun _ => id)
      (fun _ => .inl) fun _ _ => id
  | publish frame messageId => exact hworker fun v hv => h.publish hv frame messageId
  | pass due => exact hworker fun v hv => h.pass hv due
  | handle => exact hworker fun v hv => h.handle hv
  | enqueuePublish publish uuid =>
    refine hworker fun v hv => ?_
    obtain ⟨s', r, heq, hlogged, hinbox, hdead, hdedup⟩ :=
      @enqueuePublish_spec written v.store (hstore v hv ▸ hs.logged) publish uuid Nat.lt_succ_of_le
    rw [heq]
    exact h.outbox hv hlogged hinbox hdead hdedup
  | ackPublish id =>
    refine hworker fun v hv => ?_
    obtain ⟨s', heq, hlogged, hinbox, hdead, hdedup⟩ := ackPublish_spec isLimit_written (hstore v hv ▸ hs.logged) id
    rw [heq]
    exact h.outbox hv hlogged hinbox hdead hdedup
  | receive =>
    rw [InboundWorld.step]
    split
    case h_2 => exact h
    next m inbound hexec hinbound =>
    -- the first message of the channel becomes the one that is executed
    have hmem (m' : MqttInbound) :
        m' ∈ ({ w with executing := some m, inbound } : InboundWorld).messages ↔ m' ∈ w.messages := by
      simp only [messages, hexec, hinbound, Option.toList, List.mem_append, List.mem_cons, List.not_mem_nil]
      tauto
    refine h.move rfl (fun v' hv' => ⟨v', hv', rfl, rfl⟩) rfl rfl (fun _ => id) le_rfl (fun m' => (hmem m').mp)
      (fun _ => .inl) fun _ i hin => hin.imp ?_ id
    rintro ⟨m', hm', rfl⟩
    exact ⟨m', (hmem m').mpr hm', rfl⟩
  | finish outcome =>
    rw [InboundWorld.step]
    split
    case h_2 => exact h
    next m hexec =>
    split_ifs
    case neg => exact h
    refine h.move rfl (fun v' hv' => ⟨v', hv', rfl, rfl⟩) rfl rfl (List.subset_append_left _ _) le_rfl ?_ ?_ ?_
    · intro m' hm'
      simp only [messages, hexec, List.mem_append, Option.toList, List.not_mem_nil, or_false] at hm' ⊢
      exact .inl hm'
    · intro d hd
      simp only [returning, List.mem_append, List.mem_singleton] at hd ⊢
      tauto
    · -- the message is done, and its disposition is on its way
      rintro - i (⟨m', hm', rfl⟩ | ⟨d, hd, rfl⟩ | hin)
      · simp only [messages, hexec, List.mem_append, Option.toList, List.mem_singleton] at hm'
        rcases hm' with hm' | rfl
        · exact .inl ⟨m', by simp only [messages, List.mem_append]; exact .inl hm', rfl⟩
        · exact .inr (.inl ⟨(m'.id, outcome.disposition), by simp [returning], rfl⟩)
      · refine .inr (.inl ⟨d, ?_, rfl⟩)
        simp only [returning, List.mem_append] at hd ⊢
        tauto
      · exact .inr (.inr hin)
  | takeDisposition =>
    rw [InboundWorld.step]
    split
    case h_1 => exact h
    next d dispositions hdisp =>
    split_ifs
    · -- there is no room, and the id is refused
      refine h.move rfl (fun v' hv' => ⟨v', hv', rfl, rfl⟩) rfl rfl (fun _ => id) le_rfl (fun _ => id) ?_ ?_
      · intro d' hd'
        simp only [returning, hdisp, List.mem_append, List.mem_cons] at hd' ⊢
        tauto
      · rintro - i (hin | ⟨d', hd', rfl⟩ | hin)
        · exact .inl hin
        · simp only [returning, hdisp, List.mem_append, List.mem_cons] at hd'
          rcases hd' with hd' | rfl | hd'
          · exact .inr (.inl ⟨d', by simp only [returning, List.mem_append]; exact .inl hd', rfl⟩)
          · exact .inr (.inr (List.mem_append_right _ List.mem_cons_self))
          · exact .inr (.inl ⟨d', by simp only [returning, List.mem_append]; exact .inr hd', rfl⟩)
        · exact .inr (.inr (List.mem_append_left _ hin))
    · have hmem (d' : Nat × MqttInboundDisposition) :
          d' ∈ ({ w with dispositions, pendingDispositions := w.pendingDispositions ++ [d] } : InboundWorld).returning ↔
            d' ∈ w.returning := by
        simp only [returning, hdisp, List.mem_append, List.mem_cons, List.not_mem_nil]
        tauto
      refine h.move rfl (fun v' hv' => ⟨v', hv', rfl, rfl⟩) rfl rfl (fun _ => id) le_rfl (fun _ => id)
        (fun d' hd' => .inl ((hmem d').mp hd')) fun _ i hin => hin.imp id fun hin => hin.imp ?_ id
      rintro ⟨d', hd', rfl⟩
      exact ⟨d', (hmem d').mpr hd', rfl⟩
  | giveDispositions =>
    refine hworker fun v hv => ?_
    have happend := flushDispositions_append w.pendingDispositions v.dispositionRx
    generalize flushDispositions w.pendingDispositions v.dispositionRx = moved at happend ⊢
    obtain ⟨pendingDispositions, rx⟩ := moved
    have hmem (d : Nat × MqttInboundDisposition) :
        d ∈ ({ w with worker := some { v with dispositionRx := rx }, pendingDispositions } : InboundWorld).returning ↔
          d ∈ w.returning := by
      rw [returning, returning, hv, Option.elim_some, Option.elim_some, happend]
    have hmessages :
        ({ w with worker := some { v with dispositionRx := rx }, pendingDispositions } : InboundWorld).messages =
          w.messages := by
      rw [messages, messages, hv]
      rfl
    refine h.move rfl ?_ rfl rfl (fun _ => id) le_rfl (fun m hm => hmessages ▸ hm) (fun d hd => .inl ((hmem d).mp hd))
      fun _ i hin => hin.imp ?_ fun hin => hin.imp ?_ id
    · rintro v' ⟨rfl⟩
      exact ⟨v, hv, rfl, rfl⟩
    · rw [hmessages]
      exact fun hin => hin
    · rintro ⟨d, hd, rfl⟩
      exact ⟨d, (hmem d).mpr hd, rfl⟩

/-! ## Results -/

private theorem inboundInv_run (serde : StoreSerde) (is : List InboundEvent) :
    InboundInv ((inboundMachine serde).run is) := by
  have hinit : InboundInv {} := by
    refine ⟨⟨emptyStore, ⟨storeLogged_empty written, rfl, ?_, nofun, ?_, ?_, nofun⟩, nofun⟩, nofun, nofun, nofun, nofun⟩
    · intro id item hp
      simp [Pending, emptyStore] at hp
    · intro i letter hletter
      simp [emptyStore] at hletter
    · intro key hkey
      exact absurd hkey Std.ExtTreeSet.not_mem_empty
  exact Machine.invariant_runFrom (I := InboundInv) (fun _ e h _ => inboundInv_step serde h e) hinit
    (Machine.steps_true _ _ is)

/-- A message is acknowledged to the broker once it is in the inbox, and stays there until the executor has settled
    it. -/
theorem inbound_kept (serde : StoreSerde) (is : List InboundEvent) : ((inboundMachine serde).run is).Kept := by
  have h := inboundInv_run serde is
  obtain ⟨s, hs, -⟩ := h.inbox
  refine ⟨hs.acked, fun p hp hid => ?_, h.stored⟩
  refine (hs.kept p hp hid).imp_left fun hpend => ?_
  obtain ⟨rs, hfile, hrep, -⟩ := hs.logged.inbox.log
  exact ⟨rs, by rw [hs.files]; exact hfile, by rw [← hrep.entries_eq]; exact hpend⟩

/-- No pending message is forgotten while a worker runs. -/
theorem nothing_stranded (serde : StoreSerde) (is : List InboundEvent) :
    ((inboundMachine serde).run is).NothingStranded :=
  (inboundInv_run serde is).ways

/-- With room for one more, the retry of this id is over. -/
private theorem flushDue_room {v : InboundWorker} {now id : Nat}
    (hroom : v.inboundStaging.length < INBOUND_STAGING_CAPACITY) :
    (v.flushDue now id).inboundStaging.length ≤ v.inboundStaging.length + 1 ∧
      (v.flushDue now id).inboundRetryDeadlines = v.inboundRetryDeadlines.erase id := by
  unfold InboundWorker.flushDue
  dsimp only
  split
  · exact ⟨Nat.le_succ _, rfl⟩
  · rw [if_neg (by omega)]
    exact ⟨by rw [List.length_append]; rfl, rfl⟩

/-- With room for all of them, the retries that are due are over. -/
private theorem flushDueInboundRetries_room {v : InboundWorker} {now : Nat} {due : List Nat}
    (hroom : v.inboundStaging.length + due.length ≤ INBOUND_STAGING_CAPACITY) {id : Nat}
    (hid : id ∈ (v.flushDueInboundRetries due now).inboundRetryDeadlines) :
    id ∈ v.inboundRetryDeadlines ∧ id ∉ due := by
  unfold InboundWorker.flushDueInboundRetries at hid
  induction due generalizing v with
  | nil => exact ⟨hid, List.not_mem_nil⟩
  | cons i due ih =>
    rw [List.length_cons] at hroom
    obtain ⟨hlen, heq⟩ := @flushDue_room v now i (by omega)
    obtain ⟨hin, hnot⟩ := ih (by omega) hid
    rw [heq, Std.ExtTreeMap.mem_erase, Ne, Std.compare_eq_iff_eq] at hin
    exact ⟨hin.2, fun hmem => (List.mem_cons.mp hmem).elim (fun heq => hin.1 heq.symm) hnot⟩

/-- No retry waits for longer than 30 seconds: once the longest delay has passed, a pass of a worker with room
    leaves none behind. -/
theorem retried_in_time (serde : StoreSerde) (is : List InboundEvent) {v : InboundWorker}
    (hv : ((inboundMachine serde).run is).worker = some v) {ms : Nat} (hms : INBOUND_RETRY_MAX ≤ ms)
    {due : List Nat} (hdue : due.Perm (v.dueIds (((inboundMachine serde).run is).now + ms)))
    (hroom : v.inboundStaging.length + due.length ≤ INBOUND_STAGING_CAPACITY) :
    ((inboundMachine serde).run (is ++ [.wait ms, .pass due])).NoRetryLeft v.store := by
  have h := inboundInv_run serde is
  rw [Machine.run, Machine.runFrom_append]
  change NoRetryLeft ((((inboundMachine serde).run is).step serde (.wait ms)).step serde (.pass due)) v.store
  generalize (inboundMachine serde).run is = w at h hv hdue ⊢
  intro id item hpend
  set w' := (w.step serde (.wait ms)).step serde (.pass due)
  have hw : InboundInv (w.step serde (.wait ms)) := inboundInv_step serde h _
  have hw' : InboundInv w' := inboundInv_step serde hw _
  -- the pass, with the worker that it leaves
  let v₁ := v.flushDueInboundRetries due (w.now + ms)
  have hstep : w'.worker = some { v₁ with inboundStaging := (flushInbound v₁.inboundStaging w.inbound).1 } := by
    have hpass : w' = (w.step serde (.wait ms)).pass v due := by
      change (w.step serde (.wait ms)).worker.elim _ (fun v => (w.step serde (.wait ms)).pass v due) = _
      rw [show (w.step serde (.wait ms)).worker = some v from hv, Option.elim_some]
    have hperm : due.isPerm (v.dueIds (w.step serde (.wait ms)).now) = true := List.isPerm_iff.mpr hdue
    rw [hpass, InboundWorld.pass, if_pos hperm]
    rfl
  have hstore : v₁.store = v.store := (flushDueInboundRetries_spec (w.now + ms) v due).store
  rcases hw'.ways _ hstep id item (by rw [← hstore] at hpend; exact hpend) with hin | hin | hin | hin
  · exact .inl hin
  · exact .inr (.inl hin)
  · -- every deadline was due
    obtain ⟨hold, hnot⟩ := flushDueInboundRetries_room hroom hin
    obtain ⟨deadline, hget⟩ := Option.isSome_iff_exists.mp (Std.ExtTreeMap.mem_iff_isSome_getElem?.mp hold)
    have hle := h.deadlines v hv id deadline hget
    refine absurd (hdue.mem_iff.mpr ?_) hnot
    simp only [InboundWorker.dueIds, List.mem_map, List.mem_filter, decide_eq_true_eq]
    exact ⟨(id, deadline), ⟨TreeMap.mem_toList.mpr hget, by omega⟩, rfl⟩
  · exact .inr (.inr hin)

/-- A message is admitted, and the executor cannot take it yet. -/
def retriedOnce : List InboundEvent :=
  [.startWorker {}, .publish { topic := "t".toList, payload := [], retained := false } none, .pass [], .receive,
    .finish (.retryable "busy".toList), .takeDisposition, .giveDispositions, .handle]

/-- Half a minute later it is sent off again. -/
theorem retried_in_time_retriedOnce :
    ∃ v item, ((inboundMachine storeSerde).run retriedOnce).worker = some v ∧ Pending v.store 1 item ∧
      1 ∈ v.inboundRetryDeadlines ∧
      ((inboundMachine storeSerde).run (retriedOnce ++ [.wait 30000, .pass [1]])).NoRetryLeft v.store := by
  have hworker : ((inboundMachine storeSerde).run retriedOnce).worker.any fun v =>
      v.store.inbox.entries[1]?.isSome && v.inboundRetryDeadlines.contains 1 &&
        ([1].isPerm (v.dueIds (((inboundMachine storeSerde).run retriedOnce).now + 30000)) &&
          decide (v.inboundStaging.length + 1 ≤ INBOUND_STAGING_CAPACITY)) := by
    decide +kernel
  obtain ⟨v, hv, hfacts⟩ := Option.any_eq_true _ _ |>.mp hworker
  simp only [Bool.and_eq_true, decide_eq_true_eq] at hfacts
  obtain ⟨⟨hpending, hdeadline⟩, hdue, hroom⟩ := hfacts
  obtain ⟨item, hitem⟩ := Option.isSome_iff_exists.mp hpending
  exact ⟨v, item, hv, hitem, Std.ExtTreeMap.contains_iff_mem.mp hdeadline,
    retried_in_time storeSerde retriedOnce hv (by decide) (List.isPerm_iff.mp hdue) hroom⟩

end TeamClu.Mqtt
