import TeamClu.ForStd.TreeMap
import TeamClu.Native.InboundPath
import TeamClu.Spec.StoreInvariant

/-!
# What the inbound path does to the store

One lemma for each function of the inbound path: what a publish puts in the inbox, what a disposition takes out, and
what a pass of the worker moves.  The store is one whose logs were written by the store itself.
-/

namespace TeamClu.Mqtt

open DurableQueue

/-! ## The store under a disposition -/

/-- The line limit of the logs as they are written. -/
abbrev written : Nat := MAX_DURABLE_LOG_LINE_BYTES + 1

theorem isLimit_written : IsLimit written := .inr rfl

/-- What a disposition of this id may do to the store. -/
structure Disposed (s s' : DurableMqttStore) (id : Nat) (d : MqttInboundDisposition) : Prop where
  logged : StoreLogged written s'
  pending_of : ∀ {i item}, Pending s' i item → Pending s i item
  kept : ∀ {i item}, i ≠ id ∨ d = .retry → Pending s i item → Pending s' i item
  keys : ∀ key ∈ s'.inboundDedup.keys, key ∈ s.inboundDedup.keys
  letters : ∀ (i : Nat) (letter : DurableDeadLetter), s'.deadLetter.entries[i]? = some letter →
    s.deadLetter.entries[i]? = some letter ∨ Pending s id letter.inbound ∧ ∃ reason, d = .deadLetter reason

/-- A message that is erased is gone, and the others stay. -/
theorem pending_erased {s s' : DurableMqttStore} {id i : Nat} {item : DurableInbound}
    (h : InboxErased written s s' id) : Pending s' i item ↔ i ≠ id ∧ Pending s i item := by
  unfold Pending
  rw [h.entries, TreeMap.get_erase]
  split_ifs with heq
  · simp [heq]
  · simp [Ne.symm heq]

theorem disposed_of_erased {s s' : DurableMqttStore} {id : Nat} {d : MqttInboundDisposition}
    (h : InboxErased written s s' id) (hd : d ≠ .retry)
    (hletters : ∀ (i : Nat) (letter : DurableDeadLetter), s'.deadLetter.entries[i]? = some letter →
      s.deadLetter.entries[i]? = some letter ∨ Pending s id letter.inbound ∧ ∃ reason, d = .deadLetter reason) :
    Disposed s s' id d where
  logged := h.logged
  pending_of hp := ((pending_erased h).mp hp).2
  kept hne hp := (pending_erased h).mpr ⟨hne.resolve_right hd, hp⟩
  keys key hkey := ((h.keys key).mp hkey).2
  letters := hletters

/-- An acknowledgement succeeds, and the message is gone. -/
theorem ackInbound_disposed {s : DurableMqttStore} (h : StoreLogged written s) (id : Nat) :
    ∃ s', s.ackInbound id = (s', .ok ()) ∧ Disposed s s' id .ack ∧ s'.inbox.entries[id]? = none := by
  obtain ⟨s', hack, herased, hdead⟩ := ackInbound_spec isLimit_written h id
  refine ⟨s', hack, disposed_of_erased herased (by simp) ?_, ?_⟩
  · rw [hdead]
    exact fun i letter hletter => .inl hletter
  · rw [herased.entries, TreeMap.get_erase, if_pos rfl]

/-- A message is dead-lettered, and gone, or it stays and there is an error. -/
theorem deadLetterInbound_disposed {s : DurableMqttStore} (h : StoreLogged written s) (id : Nat)
    (reason : Str) :
    ∃ s' r, s.deadLetterInbound id reason = (s', r) ∧ Disposed s s' id (.deadLetter reason) ∧
      (r = .ok () → s'.inbox.entries[id]? = none) := by
  cases hitem : s.inbox.entries[id]? with
  | none =>
    exact ⟨s, .ok (), deadLetterInbound_absent hitem reason,
      ⟨h, fun hp => hp, fun _ hp => hp, fun _ hkey => hkey, fun _ _ hletter => .inl hletter⟩, fun _ => hitem⟩
  | some item =>
    cases hplain : retiresPlainly s item reason with
    | true =>
      obtain ⟨s', hdead, herased, hdl⟩ := deadLetterInbound_plain isLimit_written h hitem hplain
      refine ⟨s', .ok (), hdead, disposed_of_erased herased (by simp) ?_, fun _ => ?_⟩
      · rw [hdl]
        exact fun i letter hletter => .inl hletter
      · rw [herased.entries, TreeMap.get_erase, if_pos rfl]
    | false =>
      obtain ⟨dl, hlogged, hnext, -, hsub, hlong, hshort⟩ := deadLetterInbound_put isLimit_written h hitem hplain
      by_cases hlen : letterLength s item reason ≤ MAX_DURABLE_LOG_LINE_BYTES
      · -- the letter is written before the message is erased
        obtain ⟨s', hdead, herased, hdl⟩ := hshort hlen (Nat.lt_succ_of_le hlen)
        refine ⟨s', .ok (), hdead, disposed_of_erased herased (by simp) ?_, fun _ => ?_⟩
        · intro i letter hletter
          rw [hdl, DurableQueue.afterPut, TreeMap.get_insert] at hletter
          split_ifs at hletter
          · obtain rfl := Option.some.inj hletter
            exact .inr ⟨hitem, reason, rfl⟩
          · exact .inl (hsub i letter hletter)
        · rw [herased.entries, TreeMap.get_erase, if_pos rfl]
      · -- the letter is too long, and only older letters have made room
        have hsame : StoreLogged written { s with deadLetter := dl } := ⟨h.inbox, h.outbox, hlogged, h.dedup⟩
        refine ⟨_, _, hlong (by omega), ⟨hsame, fun hp => hp, fun _ hp => hp, fun _ hkey => hkey, ?_⟩, by simp⟩
        exact fun i letter hletter => .inl (hsub i letter hletter)

/-! ## The functions of the worker -/

/-- What a publish that is new does to the store. -/
structure Admits (s s' : DurableMqttStore) (item : DurableInbound) : Prop where
  logged : StoreLogged written s'
  pending : ∀ {i item'}, Pending s' i item' ↔
    if i = s.inbox.nextId then item' = item else Pending s i item'
  letters : s'.deadLetter = s.deadLetter
  keys : ∀ key ∈ s'.inboundDedup.keys, item.key = some key ∨ key ∈ s.inboundDedup.keys

/-- A publish changes nothing but a flag, and is acknowledged only when one of its key is there; or it is put in the
    inbox and staged, and acknowledged. -/
theorem incomingPublish_spec {v : InboundWorker} (h : StoreLogged written v.store) (frame : IncomingFrame)
    (messageId : Option Str) :
    (∃ rebuild acked, v.incomingPublish frame messageId = ({ v with forcedRebuild := rebuild }, acked) ∧
      (acked = true → ∃ key, (frame.toInbound messageId).key = some key ∧
        (key ∈ v.store.inboundDedup.keys ∨ ∃ id item, Pending v.store id item ∧ item.key = some key))) ∨
    ∃ s', v.incomingPublish frame messageId =
      ({ v with store := s', inboundStaging := v.inboundStaging ++ [⟨v.store.inbox.nextId, frame⟩] }, true) ∧
      Admits v.store s' (frame.toInbound messageId) := by
  unfold InboundWorker.incomingPublish
  split_ifs
  · -- the inbox is full
    exact .inl ⟨v.forcedRebuild, false, rfl, nofun⟩
  · rcases enqueueInbound_spec h frame messageId with ⟨henq, hdup⟩ | ⟨henq, -, -⟩ |
      ⟨s', henq, hlen, hinbox, houtbox, hdead, hdedup, -, hkeys⟩
    · -- a redelivery
      refine .inl ⟨v.forcedRebuild, true, by rw [henq], fun _ => ?_⟩
      rcases hdup with ⟨key, hkey, hmem⟩ | ⟨hid, id, item, hpend, htopic, hmid⟩
      · exact ⟨key, hkey, .inl hmem⟩
      · obtain ⟨mid, rfl⟩ := Option.isSome_iff_exists.mp hid
        refine ⟨dedupKey frame.topic mid, rfl, .inr ⟨id, item, hpend, ?_⟩⟩
        rw [DurableInbound.key, hmid, htopic, Option.map_some]
    · -- its record is too long
      exact .inl ⟨true, false, by rw [henq], nofun⟩
    · refine .inr ⟨s', by rw [henq], ?_, ?_, hdead, fun key hkey => ((hkeys key).mp hkey).imp id id⟩
      · exact storeLogged_admit h (Nat.lt_succ_of_le hlen) hinbox houtbox hdead hdedup
      · intro i item'
        unfold Pending
        rw [hinbox, DurableQueue.afterPut, TreeMap.get_insert]
        by_cases hi : i = v.store.inbox.nextId
        · rw [if_pos hi, if_pos hi.symm, Option.some.injEq, eq_comm]
        · rw [if_neg hi, if_neg (Ne.symm hi)]

/-- What the worker is after a disposition of this id. -/
structure Handled (v v' : InboundWorker) (id : Nat) (d : MqttInboundDisposition) : Prop where
  store : Disposed v.store v'.store id d
  staging : v'.inboundStaging = v.inboundStaging
  rx : v'.dispositionRx = v.dispositionRx
  mem_deadlines : ∀ i, i ≠ id → (i ∈ v'.inboundRetryDeadlines ↔ i ∈ v.inboundRetryDeadlines)

/-- A disposition is handled: afterwards its message is gone or has a deadline, or there was an error. -/
theorem handle_spec {v : InboundWorker} (h : StoreLogged written v.store) (id : Nat)
    (d : MqttInboundDisposition) (now : Nat) :
    ∃ v' r, v.handleInboundDisposition id d now = (v', r) ∧ Handled v v' id d ∧
      (r = .ok () → v'.store.inbox.entries[id]? = none ∨ id ∈ v'.inboundRetryDeadlines) ∧
      ∀ (i deadline : Nat), v'.inboundRetryDeadlines[i]? = some deadline →
        v.inboundRetryDeadlines[i]? = some deadline ∨ deadline ≤ now + INBOUND_RETRY_MAX := by
  -- the deadline of an id that is settled is taken out
  have herase (i deadline : Nat) (hi : (v.inboundRetryDeadlines.erase id)[i]? = some deadline) :
      v.inboundRetryDeadlines[i]? = some deadline ∨ deadline ≤ now + INBOUND_RETRY_MAX := by
    rw [TreeMap.get_erase] at hi
    split_ifs at hi
    exact .inl hi
  have hmem (i : Nat) (hne : i ≠ id) : i ∈ v.inboundRetryDeadlines.erase id ↔ i ∈ v.inboundRetryDeadlines := by
    rw [Std.ExtTreeMap.mem_erase, Ne, Std.compare_eq_iff_eq]
    exact ⟨fun hi => hi.2, fun hi => ⟨hne.symm, hi⟩⟩
  cases d with
  | ack =>
    obtain ⟨s', hack, hdisposed, hgone⟩ := ackInbound_disposed h id
    simp only [InboundWorker.handleInboundDisposition, hack]
    exact ⟨_, _, rfl, ⟨hdisposed, rfl, rfl, hmem⟩, fun _ => .inl hgone, herase⟩
  | retry =>
    refine ⟨_, _, rfl, ⟨⟨h, fun hp => hp, fun _ hp => hp, fun _ hkey => hkey, fun _ _ hl => .inl hl⟩, rfl, rfl, ?_⟩,
      fun _ => .inr ?_, ?_⟩
    · intro i hne
      simp [Std.ExtTreeMap.mem_insertIfNew, hne.symm]
    · simp [Std.ExtTreeMap.mem_insertIfNew]
    · intro i deadline hi
      dsimp only at hi
      rw [Std.ExtTreeMap.getElem?_insertIfNew] at hi
      split_ifs at hi
      · refine .inr ?_
        have := Option.some.inj hi
        omega
      · exact .inl hi
  | deadLetter reason =>
    obtain ⟨s', r, hdead, hdisposed, hgone⟩ := deadLetterInbound_disposed h id reason
    simp only [InboundWorker.handleInboundDisposition, hdead]
    cases r with
    | error e => exact ⟨_, _, rfl, ⟨hdisposed, rfl, rfl, hmem⟩, nofun, herase⟩
    | ok _ => exact ⟨_, _, rfl, ⟨hdisposed, rfl, rfl, hmem⟩, fun _ => .inl (hgone rfl), herase⟩

/-- What the retries that are due do to the worker. -/
structure Flushed (now : Nat) (v v' : InboundWorker) : Prop where
  store : v'.store = v.store
  rx : v'.dispositionRx = v.dispositionRx
  staged : ∃ new, v'.inboundStaging = v.inboundStaging ++ new ∧
    ∀ m ∈ new, ∃ item, Pending v.store m.id item ∧ m.frame = item.toFrame
  kept : ∀ {id item}, Pending v.store id item → id ∈ v.inboundRetryDeadlines →
    id ∈ v'.inboundStaging.map (·.id) ∨ id ∈ v'.inboundRetryDeadlines
  deadlines : ∀ (id deadline : Nat), v'.inboundRetryDeadlines[id]? = some deadline →
    v.inboundRetryDeadlines[id]? = some deadline ∨ deadline = now + INBOUND_RETRY_MAX

theorem Flushed.refl (now : Nat) (v : InboundWorker) : Flushed now v v :=
  ⟨rfl, rfl, ⟨[], (List.append_nil _).symm, nofun⟩, fun _ hid => .inr hid, fun _ _ hid => .inl hid⟩

theorem Flushed.trans {now : Nat} {v v' v'' : InboundWorker} (h : Flushed now v v') (h' : Flushed now v' v'') :
    Flushed now v v'' := by
  obtain ⟨new, hnew, hfrom⟩ := h.staged
  obtain ⟨new', hnew', hfrom'⟩ := h'.staged
  refine ⟨h'.store.trans h.store, h'.rx.trans h.rx, ⟨new ++ new', ?_, ?_⟩, ?_, ?_⟩
  · rw [hnew', hnew, List.append_assoc]
  · rw [h.store] at hfrom'
    exact List.forall_mem_append.mpr ⟨hfrom, hfrom'⟩
  · intro id item hpend hid
    rcases h.kept hpend hid with hin | hin
    · left
      rw [hnew', List.map_append]
      exact List.mem_append_left _ hin
    · exact h'.kept (h.store ▸ hpend) hin
  · intro id deadline hid
    rcases h'.deadlines id deadline hid with hin | heq
    · exact h.deadlines id deadline hin
    · exact .inr heq

/-- One retry is staged, or put off when there is no room, or forgotten with its message. -/
theorem flushDue_spec (now : Nat) (v : InboundWorker) (id : Nat) : Flushed now v (v.flushDue now id) := by
  unfold InboundWorker.flushDue
  have hmem (i : Nat) : i ∈ v.inboundRetryDeadlines.erase id ↔ i ≠ id ∧ i ∈ v.inboundRetryDeadlines := by
    rw [Std.ExtTreeMap.mem_erase, Ne, Std.compare_eq_iff_eq, eq_comm]
  have hget {i deadline : Nat} (hi : (v.inboundRetryDeadlines.erase id)[i]? = some deadline) :
      v.inboundRetryDeadlines[i]? = some deadline := by
    rw [TreeMap.get_erase] at hi
    split_ifs at hi
    exact hi
  dsimp only
  split
  · next hitem =>
    -- the message is gone
    refine ⟨rfl, rfl, ⟨[], (List.append_nil _).symm, nofun⟩, fun {i item} hpend hi => .inr ((hmem i).mpr ⟨?_, hi⟩),
      fun _ _ hi => .inl (hget hi)⟩
    rintro rfl
    exact Option.some_ne_none _ (hpend.symm.trans hitem)
  · next item hitem =>
    split_ifs
    · -- no room
      refine ⟨rfl, rfl, ⟨[], (List.append_nil _).symm, nofun⟩, fun {i item'} hpend hi => .inr ?_,
        fun i deadline hi => ?_⟩
      · rw [Std.ExtTreeMap.mem_insert, Std.compare_eq_iff_eq, hmem]
        by_cases heq : id = i
        · exact .inl heq
        · exact .inr ⟨Ne.symm heq, hi⟩
      · dsimp only at hi
        rw [TreeMap.get_insert] at hi
        split_ifs at hi
        · exact .inr (Option.some.inj hi).symm
        · exact .inl (hget hi)
    · refine ⟨rfl, rfl, ⟨[⟨id, item.toFrame⟩], rfl, ?_⟩, fun {i item'} hpend hi => ?_, fun _ _ hi => .inl (hget hi)⟩
      · rw [List.forall_mem_singleton]
        exact ⟨item, hitem, rfl⟩
      · by_cases heq : i = id
        · left
          rw [List.map_append, heq]
          exact List.mem_append_right _ List.mem_cons_self
        · exact .inr ((hmem i).mpr ⟨heq, hi⟩)

theorem flushDueInboundRetries_spec (now : Nat) (v : InboundWorker) (due : List Nat) :
    Flushed now v (v.flushDueInboundRetries due now) := by
  unfold InboundWorker.flushDueInboundRetries
  induction due generalizing v with
  | nil => exact .refl now v
  | cons id due ih => exact (flushDue_spec now v id).trans (ih _)

/-- Nothing is lost between the staging queue and the channel. -/
theorem flushInbound_append (staging channel : List MqttInbound) :
    (flushInbound staging channel).2 ++ (flushInbound staging channel).1 = channel ++ staging := by
  induction staging generalizing channel with
  | nil => rfl
  | cons m rest ih =>
    rw [flushInbound]
    split_ifs
    · rw [ih, List.append_assoc, List.singleton_append]
    · rfl

theorem flushDispositions_append (pending channel : List (Nat × MqttInboundDisposition)) :
    (flushDispositions pending channel).2 ++ (flushDispositions pending channel).1 = channel ++ pending := by
  induction pending generalizing channel with
  | nil => rfl
  | cons d rest ih =>
    rw [flushDispositions]
    split_ifs
    · rw [ih, List.append_assoc, List.singleton_append]
    · rfl

end TeamClu.Mqtt
