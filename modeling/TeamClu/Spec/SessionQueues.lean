import Mathlib.Data.List.Perm.Subperm
import Mathlib.Data.List.Range
import TeamClu.ForStd.FirstMatch
import TeamClu.Native.SessionQueue

/-!
# Every message of a conversation gets its turn or its notice

Key results:
* `messages_answered`: whatever the senders, the consumers and the clock do, every message that was sent is in exactly
  one place: waiting in a queue of at most five, in its turn, in its notice, or settled once.  No consumer leaves with
  messages in its queue, and a turn that began is running or was run to its end.
* `turns_in_order`: as long as no consumer removes the entry of another queue than its own, and there is no shutdown,
  at most one turn runs at a time, and the turns begin in the order in which their messages were sent.
* `stale_cleanup_overlaps`: the condition is needed.  A consumer that leaves after a sender has made a new queue removes
  the entry of the new one, and then the next message has a turn beside the one that runs.
-/

namespace TeamClu.SessionQueue

/-! ## What is promised -/

/-- The message that a consumer is at. -/
def Phase.messages : Phase → List Nat
  | .processing msg | .rejecting msg | .refusing msg => [msg]
  | .waiting | .idle | .draining | .leaving | .done => []

/-- The message whose turn runs. -/
def Phase.turns : Phase → List Nat
  | .processing msg => [msg]
  | .waiting | .rejecting _ | .idle | .draining | .refusing _ | .leaving | .done => []

/-- A consumer that begins no more turns. -/
def Phase.retired : Phase → Bool
  | .draining | .refusing _ | .leaving | .done => true
  | .waiting | .processing _ | .rejecting _ | .idle => false

/-- The messages that a consumer has. -/
def Consumer.held (c : Consumer) : List Nat := c.phase.messages ++ c.buffer

namespace Queues

/-- Every place where a message can be. -/
def places (s : Queues) : List Nat := s.outcomes.map (·.1) ++ s.consumers.flatMap Consumer.held

/-- The messages whose turns ran to their ends. -/
def processed (s : Queues) : List Nat := (s.outcomes.filter (·.2 = .processed)).map (·.1)

/-- Every message is in one place. -/
structure Answered (s : Queues) : Prop where
  placed : s.places.Perm (List.range s.sent)
  turns : s.started.Perm (s.processed ++ s.consumers.flatMap (·.phase.turns))
  bounded : ∀ c ∈ s.consumers, c.buffer.length ≤ MAX_QUEUE_SIZE
  left : ∀ c ∈ s.consumers, c.phase = .leaving ∨ c.phase = .done → c.buffer = []

/-- A consumer removes the entry of its own queue only, and the queues are not shut down. -/
def Orderly (s : Queues) : Event → Prop
  | .consumer k .cleanup => s.current = none ∨ s.current = some k
  | .shutdown => False
  | .enqueue | .consumer _ _ => True

instance decidableOrderly (s : Queues) : (e : Event) → Decidable (s.Orderly e)
  | .consumer k .cleanup => inferInstanceAs (Decidable (s.current = none ∨ s.current = some k))
  | .shutdown => isFalse id
  | .enqueue | .consumer _ (.receive _) | .consumer _ .finish | .consumer _ .expire | .consumer _ .close
  | .consumer _ .disconnect | .consumer _ .drain => isTrue trivial

/-- One turn at a time, in the order of the messages. -/
structure InOrder (s : Queues) : Prop where
  single : ∀ (j k m n : Nat) (c d : Consumer), s.consumers[j]? = some c → s.consumers[k]? = some d →
    c.phase = .processing m → d.phase = .processing n → j = k
  order : s.started.Pairwise (· < ·)

/-! ## What a step can do -/

/-- What a move of a consumer can do. -/
private inductive Moves (s : Queues) (k : Nat) : Consumer → Queues → Prop
  | stay (c) : Moves s k c s
  | begins {msg buffer closed} : Moves s k { buffer := msg :: buffer, closed, phase := .waiting }
      { s.goOn k { buffer, closed, phase := .processing msg } with started := s.started ++ [msg] }
  | late {msg buffer closed} : Moves s k { buffer := msg :: buffer, closed, phase := .waiting }
      (s.goOn k { buffer, closed, phase := .rejecting msg })
  | ends {msg buffer closed} : Moves s k { buffer, closed, phase := .processing msg }
      (s.settle k { buffer, closed, phase := .waiting } msg .processed)
  | rejected {msg buffer closed} : Moves s k { buffer, closed, phase := .rejecting msg }
      (s.settle k { buffer, closed, phase := .waiting } msg (.rejected .timeout))
  | refused {msg buffer closed} : Moves s k { buffer, closed, phase := .refusing msg }
      (s.settle k { buffer, closed, phase := .draining } msg (.rejected .sessionClosed))
  | expires {closed} : Moves s k { buffer := [], closed, phase := .waiting }
      (s.goOn k { buffer := [], closed, phase := .idle })
  | closes {buffer closed} : Moves s k { buffer, closed, phase := .idle }
      (s.goOn k { buffer, closed := true, phase := .draining })
  | disconnects {closed} (h : s.current ≠ some k) : Moves s k { buffer := [], closed, phase := .waiting }
      (s.goOn k { buffer := [], closed, phase := .draining })
  | refuses {msg buffer closed} : Moves s k { buffer := msg :: buffer, closed, phase := .draining }
      (s.goOn k { buffer, closed, phase := .refusing msg })
  | leaves {closed} : Moves s k { buffer := [], closed, phase := .draining }
      (s.goOn k { buffer := [], closed, phase := .leaving })
  | cleansUp {buffer closed} : Moves s k { buffer, closed, phase := .leaving }
      { s.goOn k { buffer, closed, phase := .done } with current := none }

private theorem consume_moves (s : Queues) (k : Nat) (c : Consumer) (move : Move) :
    Moves s k c (s.consume k c move) := by
  obtain ⟨buffer, closed, phase⟩ := c
  cases move with
  | receive late =>
    cases phase <;> cases buffer <;> try exact .stay _
    cases late
    · exact .begins
    · exact .late
  | finish =>
    cases phase <;> try exact .stay _
    · exact .ends
    · exact .rejected
    · exact .refused
  | expire =>
    rw [consume]
    split_ifs with h
    · obtain ⟨rfl, rfl⟩ := h
      exact .expires
    · exact .stay _
  | close =>
    rw [consume]
    split_ifs with h
    · obtain rfl := h
      exact .closes
    · exact .stay _
  | disconnect =>
    rw [consume]
    split_ifs with h
    · obtain ⟨rfl, rfl, hcurrent⟩ := h
      exact .disconnects hcurrent
    · exact .stay _
  | drain =>
    cases phase <;> cases buffer <;> try exact .stay _
    · exact .leaves
    · exact .refuses
  | cleanup =>
    rw [consume]
    split_ifs with h
    · obtain rfl := h
      exact .cleansUp
    · exact .stay _

/-- Only the cleanup changes the entry of the key. -/
private theorem consume_current (s : Queues) (k : Nat) (c : Consumer) {move : Move} (h : move ≠ .cleanup) :
    (s.consume k c move).current = s.current := by
  cases move with
  | receive late =>
    rw [consume]
    split
    · cases late <;> rfl
    · rfl
  | cleanup => exact absurd rfl h
  | finish | expire | close | disconnect | drain =>
    rw [consume]
    split <;> rfl

/-- What a sender can do. -/
private inductive Sends (s : Queues) : Queues → Prop
  | makes (h : ∀ k c, s.current = some k → s.consumers[k]? = some c → c.closed) : Sends s s.createAndSend
  | full : Sends s { s with sent := s.sent + 1, outcomes := s.outcomes ++ [(s.sent, .rejected .queueFull)] }
  | joins {k c} (hcurrent : s.current = some k) (hc : s.consumers[k]? = some c) (hopen : c.closed = false)
      (hroom : c.buffer.length < MAX_QUEUE_SIZE) :
      Sends s { s with consumers := s.consumers.set k { c with buffer := c.buffer ++ [s.sent] }, sent := s.sent + 1 }

private theorem enqueue_sends (s : Queues) : Sends s s.enqueue := by
  rw [enqueue]
  split
  · next hnone =>
    refine .makes fun k c hcurrent hc => ?_
    rw [hcurrent, Option.bind_some, hc] at hnone
    cases hnone
  · next k c hsome =>
    obtain ⟨j, hcurrent, hmap⟩ := Option.bind_eq_some_iff.mp hsome
    obtain ⟨d, hc, hpair⟩ := Option.map_eq_some_iff.mp hmap
    cases hpair
    split_ifs with hclosed hfull
    · refine .makes fun j d hj hd => ?_
      obtain rfl := Option.some.inj (hcurrent.symm.trans hj)
      obtain rfl := Option.some.inj (hc.symm.trans hd)
      exact hclosed
    · exact .full
    · exact .joins hcurrent hc (Bool.eq_false_iff.mpr hclosed) (Nat.lt_of_not_le hfull)

/-- The consumers after one of them went on. -/
private theorem getElem?_set_cases {consumers : List Consumer} {j k : Nat} {c d : Consumer}
    (h : (consumers.set k c)[j]? = some d) : j = k ∧ d = c ∨ j ≠ k ∧ consumers[j]? = some d := by
  by_cases hjk : j = k
  · subst hjk
    obtain ⟨hlt, rfl⟩ := List.getElem?_eq_some_iff.mp h
    exact .inl ⟨rfl, List.getElem_set_self _⟩
  · rw [List.getElem?_set_ne (Ne.symm hjk)] at h
    exact .inr ⟨hjk, h⟩

/-- The consumers after one more was made. -/
private theorem getElem?_concat_cases {consumers : List Consumer} {k : Nat} {c d : Consumer}
    (h : (consumers ++ [d])[k]? = some c) :
    k < consumers.length ∧ consumers[k]? = some c ∨ k = consumers.length ∧ c = d := by
  rcases Nat.lt_or_ge k consumers.length with hlt | hge
  · rw [List.getElem?_append_left hlt] at h
    exact .inl ⟨hlt, h⟩
  · rw [List.getElem?_append_right hge] at h
    obtain ⟨hlt, rfl⟩ := List.getElem?_eq_some_iff.mp h
    rw [List.length_singleton] at hlt
    exact .inr ⟨by omega, List.getElem_singleton _⟩

/-! ## Where a message is -/

private theorem mem_places_of_held {s : Queues} {k m : Nat} {c : Consumer} (hc : s.consumers[k]? = some c)
    (hm : m ∈ c.held) : m ∈ s.places :=
  List.mem_append_right _ (List.mem_flatMap.mpr ⟨c, List.mem_of_getElem? hc, hm⟩)

/-- A turn that runs is that of a message that the consumer has. -/
private theorem turns_sublist (phase : Phase) : phase.turns.Sublist phase.messages := by
  cases phase
  case processing msg => exact .refl _
  all_goals exact List.nil_sublist _

private theorem turns_sublist_places (s : Queues) :
    (s.processed ++ s.consumers.flatMap (·.phase.turns)).Sublist s.places := by
  refine (List.filter_sublist.map _).append ?_
  induction s.consumers with
  | nil => exact .refl _
  | cons c consumers ih =>
    rw [List.flatMap_cons, List.flatMap_cons]
    exact ((turns_sublist _).trans (List.sublist_append_left _ _)).append ih

/-- A message was sent before the next one. -/
private theorem Answered.lt_sent {s : Queues} (h : s.Answered) {m : Nat} (hm : m ∈ s.places) : m < s.sent :=
  List.mem_range.mp (h.placed.mem_iff.mp hm)

private theorem Answered.started_lt_sent {s : Queues} (h : s.Answered) {m : Nat} (hm : m ∈ s.started) : m < s.sent :=
  h.lt_sent ((turns_sublist_places s).subset (h.turns.mem_iff.mp hm))

private theorem Answered.buffer_lt_sent {s : Queues} (h : s.Answered) {k m : Nat} {c : Consumer}
    (hc : s.consumers[k]? = some c) (hm : m ∈ c.buffer) : m < s.sent :=
  h.lt_sent (mem_places_of_held hc (List.mem_append_right _ hm))

/-- A consumer goes on: what it had is settled, or it still has it, and a turn that begins runs or is settled. -/
private theorem Answered.goesOn {s s' : Queues} (h : s.Answered) {k : Nat} {c c' : Consumer}
    (hc : s.consumers[k]? = some c) (settled : List (Nat × Outcome)) (begun : List Nat)
    (hconsumers : s'.consumers = s.consumers.set k c') (hsent : s'.sent = s.sent)
    (houtcomes : s'.outcomes = s.outcomes ++ settled) (hstarted : s'.started = s.started ++ begun)
    (hheld : c.held = settled.map (·.1) ++ c'.held)
    (hturns : begun ++ c.phase.turns = (settled.filter (·.2 = .processed)).map (·.1) ++ c'.phase.turns)
    (hbuffer : c'.buffer.length ≤ c.buffer.length)
    (hleft : c'.phase = .leaving ∨ c'.phase = .done → c'.buffer = []) : s'.Answered := by
  constructor
  · refine .trans (List.perm_iff_count.mpr fun n => ?_) (hsent ▸ h.placed)
    have hcount := (FirstMatch.flatMap_set_exchange (g := Consumer.held) (b := c') hc).count_eq n
    rw [hheld] at hcount
    rw [places, places, houtcomes, hconsumers]
    simp only [List.map_append, List.count_append] at hcount ⊢
    omega
  · refine List.perm_iff_count.mpr fun n => ?_
    have hcount := (FirstMatch.flatMap_set_exchange (g := (·.phase.turns)) (b := c') hc).count_eq n
    have hturns := congrArg (List.count n) hturns
    have hold := h.turns.count_eq n
    rw [processed, houtcomes, hconsumers, hstarted]
    simp only [processed, List.filter_append, List.map_append, List.count_append] at hcount hturns hold ⊢
    omega
  · rw [hconsumers]
    intro d hd
    rcases List.mem_or_eq_of_mem_set hd with hmem | rfl
    · exact h.bounded d hmem
    · exact hbuffer.trans (h.bounded c (List.mem_of_getElem? hc))
  · rw [hconsumers]
    intro d hd
    rcases List.mem_or_eq_of_mem_set hd with hmem | rfl
    · exact h.left d hmem
    · exact hleft

/-- A consumer goes on, and no turn or notice begins or ends. -/
private theorem Answered.goesOn_quietly {s s' : Queues} (h : s.Answered) {k : Nat} {c c' : Consumer}
    (hc : s.consumers[k]? = some c) (hconsumers : s'.consumers = s.consumers.set k c') (hsent : s'.sent = s.sent)
    (houtcomes : s'.outcomes = s.outcomes) (hstarted : s'.started = s.started) (hheld : c.held = c'.held)
    (hturns : c.phase.turns = c'.phase.turns) (hbuffer : c'.buffer.length ≤ c.buffer.length)
    (hleft : c'.phase = .leaving ∨ c'.phase = .done → c'.buffer = []) : s'.Answered :=
  h.goesOn hc [] [] hconsumers hsent (houtcomes.trans (List.append_nil _).symm)
    (hstarted.trans (List.append_nil _).symm) hheld hturns hbuffer hleft

/-- A consumer is done with a message that it had. -/
private theorem Answered.settle {s : Queues} (h : s.Answered) {k msg : Nat} {c c' : Consumer}
    (hc : s.consumers[k]? = some c) {outcome : Outcome} (hheld : c.held = msg :: c'.held)
    (hturns : c.phase.turns = ([(msg, outcome)].filter (·.2 = .processed)).map (·.1) ++ c'.phase.turns)
    (hbuffer : c'.buffer = c.buffer) (hstays : c'.phase ≠ .leaving ∧ c'.phase ≠ .done) :
    (s.settle k c' msg outcome).Answered := by
  refine h.goesOn hc [(msg, outcome)] [] rfl rfl rfl (List.append_nil _).symm hheld hturns ?_ ?_
  · rw [hbuffer]
  · exact fun hphase => (hphase.elim hstays.1 hstays.2).elim

/-- A move of a consumer loses nothing. -/
private theorem Answered.moves {s s' : Queues} (h : s.Answered) {k : Nat} {c : Consumer}
    (hc : s.consumers[k]? = some c) (hmoves : Moves s k c s') : s'.Answered := by
  cases hmoves with
  | stay => exact h
  | @begins msg => exact h.goesOn hc [] [msg] rfl rfl (List.append_nil _).symm rfl rfl rfl (Nat.le_succ _) (by simp)
  | late => exact h.goesOn_quietly hc rfl rfl rfl rfl rfl rfl (Nat.le_succ _) (by simp)
  | ends => exact h.settle hc rfl rfl rfl (by simp)
  | rejected => exact h.settle hc rfl rfl rfl (by simp)
  | refused => exact h.settle hc rfl rfl rfl (by simp)
  | expires => exact h.goesOn_quietly hc rfl rfl rfl rfl rfl rfl le_rfl (by simp)
  | closes => exact h.goesOn_quietly hc rfl rfl rfl rfl rfl rfl le_rfl (by simp)
  | disconnects => exact h.goesOn_quietly hc rfl rfl rfl rfl rfl rfl le_rfl (by simp)
  | refuses => exact h.goesOn_quietly hc rfl rfl rfl rfl rfl rfl (Nat.le_succ _) (by simp)
  | leaves => exact h.goesOn_quietly hc rfl rfl rfl rfl rfl rfl le_rfl (by simp)
  | cleansUp =>
    have hempty := h.left _ (List.mem_of_getElem? hc) (.inl rfl)
    exact h.goesOn_quietly hc rfl rfl rfl rfl rfl rfl le_rfl fun _ => hempty

/-- A consumer that begins no more turns gets no more messages. -/
private structure Sound (s : Queues) : Prop where
  answered : s.Answered
  retired : ∀ (k : Nat) (c : Consumer), s.consumers[k]? = some c → c.phase.retired → c.closed ∨ s.current ≠ some k

/-- A message that is sent has a place. -/
private theorem Sound.answered_sends {s s' : Queues} (h : s.Sound) (hsends : Sends s s') : s'.Answered := by
  have hrange : (s.places ++ [s.sent]).Perm (List.range (s.sent + 1)) := by
    rw [List.range_succ]
    exact h.answered.placed.append_right _
  cases hsends with
  | makes =>
    refine ⟨.trans ?_ hrange, ?_, ?_, ?_⟩
    · rw [createAndSend, places, places, List.flatMap_append, ← List.append_assoc]
      rfl
    · rw [createAndSend, List.flatMap_append]
      exact h.answered.turns.trans (by rw [List.flatMap_singleton]; exact (List.append_nil _).symm ▸ .refl _)
    · exact List.forall_mem_append.mpr ⟨h.answered.bounded, List.forall_mem_singleton.mpr (Nat.le_of_ble_eq_true rfl)⟩
    · exact List.forall_mem_append.mpr ⟨h.answered.left, List.forall_mem_singleton.mpr (by simp)⟩
  | full =>
    refine ⟨.trans ?_ hrange, ?_, h.answered.bounded, h.answered.left⟩
    · rw [places, places, List.map_append, List.append_assoc, List.append_assoc]
      exact List.perm_append_comm.append_left _
    · rw [processed, List.filter_append, List.map_append]
      simpa [processed] using h.answered.turns
  | @joins k c hcurrent hc hopen hroom =>
    refine ⟨.trans (List.perm_iff_count.mpr fun n => ?_) hrange, ?_, ?_, ?_⟩
    · have hcount := (FirstMatch.flatMap_set_exchange (g := Consumer.held)
        (b := { c with buffer := c.buffer ++ [s.sent] }) hc).count_eq n
      simp only [places, Consumer.held, List.count_append] at hcount ⊢
      omega
    · refine h.answered.turns.trans (List.Perm.append_left _ ?_)
      have hexchange := FirstMatch.flatMap_set_exchange (g := (·.phase.turns))
        (b := { c with buffer := c.buffer ++ [s.sent] }) hc
      exact ((List.perm_append_left_iff _).mp hexchange).symm
    · intro d hd
      rcases List.mem_or_eq_of_mem_set hd with hmem | rfl
      · exact h.answered.bounded d hmem
      · rw [List.length_append]
        exact hroom
    · intro d hd
      rcases List.mem_or_eq_of_mem_set hd with hmem | rfl
      · exact h.answered.left d hmem
      · -- a consumer that leaves is not that of an open queue of the map
        intro hphase
        have hretired : c.phase.retired := by rcases hphase with hphase | hphase <;> rw [hphase] <;> rfl
        rcases h.retired k c hc hretired with hclosed | hne
        · rw [hopen] at hclosed
          cases hclosed
        · exact absurd hcurrent hne

/-- The consumers, the map and a consumer that gets no more turns, after a move. -/
private theorem Moves.shape {s s' : Queues} {k : Nat} {c : Consumer} (h : Moves s k c s') :
    (s' = s ∨ ∃ c', s'.consumers = s.consumers.set k c' ∧ (c.phase.retired → c'.phase.retired) ∧
      (c'.closed → c.closed ∨ c'.phase.retired) ∧
      (c'.phase.retired → c.phase.retired ∧ c'.closed = c.closed ∨ c'.closed ∨ s'.current ≠ some k)) ∧
    (s'.current = s.current ∨ s'.current = none) := by
  cases h with
  | stay => exact ⟨.inl rfl, .inl rfl⟩
  | begins => exact ⟨.inr ⟨_, rfl, by simp [Phase.retired], .inl, by simp [Phase.retired]⟩, .inl rfl⟩
  | late => exact ⟨.inr ⟨_, rfl, by simp [Phase.retired], .inl, by simp [Phase.retired]⟩, .inl rfl⟩
  | ends => exact ⟨.inr ⟨_, rfl, by simp [Phase.retired], .inl, by simp [Phase.retired]⟩, .inl rfl⟩
  | rejected => exact ⟨.inr ⟨_, rfl, by simp [Phase.retired], .inl, by simp [Phase.retired]⟩, .inl rfl⟩
  | refused => exact ⟨.inr ⟨_, rfl, fun _ => rfl, .inl, fun _ => .inl ⟨rfl, rfl⟩⟩, .inl rfl⟩
  | expires => exact ⟨.inr ⟨_, rfl, by simp [Phase.retired], .inl, by simp [Phase.retired]⟩, .inl rfl⟩
  | closes => exact ⟨.inr ⟨_, rfl, fun _ => rfl, fun _ => .inr rfl, fun _ => .inr (.inl rfl)⟩, .inl rfl⟩
  | disconnects hne => exact ⟨.inr ⟨_, rfl, fun _ => rfl, .inl, fun _ => .inr (.inr hne)⟩, .inl rfl⟩
  | refuses => exact ⟨.inr ⟨_, rfl, fun _ => rfl, .inl, fun _ => .inl ⟨rfl, rfl⟩⟩, .inl rfl⟩
  | leaves => exact ⟨.inr ⟨_, rfl, fun _ => rfl, .inl, fun _ => .inl ⟨rfl, rfl⟩⟩, .inl rfl⟩
  | cleansUp => exact ⟨.inr ⟨_, rfl, fun _ => rfl, .inl, fun _ => .inl ⟨rfl, rfl⟩⟩, .inr rfl⟩

private theorem Sound.moves {s s' : Queues} (h : s.Sound) {k : Nat} {c : Consumer}
    (hc : s.consumers[k]? = some c) (hmoves : Moves s k c s') : s'.Sound := by
  refine ⟨h.answered.moves hc hmoves, ?_⟩
  obtain ⟨rfl | ⟨c', hconsumers, -, -, hretired⟩, hcurrent⟩ := hmoves.shape
  · exact h.retired
  · -- the entry of the key is as it was, or there is none
    have hne {j : Nat} (hj : s.current ≠ some j) : s'.current ≠ some j := by
      rcases hcurrent with hsame | hnone
      · exact hsame ▸ hj
      · rw [hnone]
        exact (Option.some_ne_none j).symm
    intro j d hd hd_retired
    rw [hconsumers] at hd
    rcases getElem?_set_cases hd with ⟨rfl, rfl⟩ | ⟨-, hold⟩
    · rcases hretired hd_retired with ⟨hold, hclosed⟩ | hnow
      · rw [hclosed]
        exact (h.retired j c hc hold).imp_right hne
      · exact hnow
    · exact (h.retired j d hold hd_retired).imp_right hne

private theorem Sound.sends {s s' : Queues} (h : s.Sound) (hsends : Sends s s') : s'.Sound := by
  refine ⟨h.answered_sends hsends, ?_⟩
  cases hsends with
  | makes =>
    intro k c hc hretired
    rcases getElem?_concat_cases hc with ⟨hlt, -⟩ | ⟨-, rfl⟩
    · exact .inr fun heq => hlt.ne (Option.some.inj heq).symm
    · cases hretired
  | full => exact h.retired
  | @joins k c _ hc =>
    intro j d hd hretired
    rcases getElem?_set_cases hd with ⟨rfl, rfl⟩ | ⟨-, hold⟩
    · exact h.retired j c hc hretired
    · exact h.retired j d hold hretired

private theorem Sound.step {s : Queues} (h : s.Sound) (e : Event) : (s.step e).Sound := by
  cases e with
  | enqueue => exact h.sends (enqueue_sends s)
  | consumer k move =>
    rw [Queues.step]
    cases hc : s.consumers[k]? with
    | none => exact h
    | some c => exact h.moves hc (consume_moves s k c move)
  | shutdown => exact ⟨⟨h.answered.placed, h.answered.turns, h.answered.bounded, h.answered.left⟩,
      fun k _ _ _ => .inr (Option.some_ne_none k).symm⟩

/-! ## The order of the turns -/

/-- Only the queue of the map has turns left, and they come in the order of their messages. -/
private structure Ranked (s : Queues) : Prop where
  others : ∀ (k : Nat) (c : Consumer), s.consumers[k]? = some c → s.current ≠ some k → c.phase.retired
  closed : ∀ (k : Nat) (c : Consumer), s.consumers[k]? = some c → c.closed → c.phase.retired
  started : s.started.Pairwise (· < ·)
  ahead : ∀ (k : Nat) (c : Consumer), s.consumers[k]? = some c → c.phase.retired = false →
    (s.started ++ c.buffer).Pairwise (· < ·)

/-- The next messages are those of a consumer that may have turns left, and fewer than before. -/
private theorem Ranked.ahead_of_sublist {s s' : Queues} (h : s.Ranked) {k : Nat} {c c' : Consumer}
    (hc : s.consumers[k]? = some c) (hconsumers : s'.consumers = s.consumers.set k c')
    (hstarted : s'.started = s.started) (hlive : c'.phase.retired = false → c.phase.retired = false)
    (hbuffer : c'.buffer.Sublist c.buffer) : ∀ (j : Nat) (d : Consumer), s'.consumers[j]? = some d →
      d.phase.retired = false → (s'.started ++ d.buffer).Pairwise (· < ·) := by
  intro j d hd hd_live
  rw [hconsumers] at hd
  rw [hstarted]
  rcases getElem?_set_cases hd with ⟨rfl, rfl⟩ | ⟨-, hold⟩
  · exact (h.ahead j c hc (hlive hd_live)).sublist (hbuffer.append_left _)
  · exact h.ahead j d hold hd_live

/-- What a move leaves of the order. -/
private theorem Ranked.order_moves {s s' : Queues} (h : s.Ranked) {k : Nat} {c : Consumer}
    (hc : s.consumers[k]? = some c) (hmoves : Moves s k c s') : s'.started.Pairwise (· < ·) ∧
      ∀ (j : Nat) (d : Consumer), s'.consumers[j]? = some d → d.phase.retired = false →
        (s'.started ++ d.buffer).Pairwise (· < ·) := by
  cases hmoves with
  | stay => exact ⟨h.started, h.ahead⟩
  | @begins msg buffer =>
    have hahead := h.ahead k _ hc rfl
    rw [List.append_cons] at hahead
    refine ⟨hahead.sublist (List.sublist_append_left _ _), fun j d hd hlive => ?_⟩
    rcases getElem?_set_cases hd with ⟨rfl, rfl⟩ | ⟨hne, hold⟩
    · exact hahead
    · -- the queue of the map is that whose turn begins
      have hcurrent : s.current = some k := by
        by_contra hother
        cases h.others k _ hc hother
      have hretired := h.others j d hold fun hj => hne (Option.some.inj (hj.symm.trans hcurrent))
      rw [hlive] at hretired
      cases hretired
  | late =>
    exact ⟨h.started, h.ahead_of_sublist hc rfl rfl (fun _ => rfl) (List.sublist_cons_self _ _)⟩
  | ends => exact ⟨h.started, h.ahead_of_sublist hc rfl rfl (fun _ => rfl) (.refl _)⟩
  | rejected => exact ⟨h.started, h.ahead_of_sublist hc rfl rfl (fun _ => rfl) (.refl _)⟩
  | refused => exact ⟨h.started, h.ahead_of_sublist hc rfl rfl id (.refl _)⟩
  | expires => exact ⟨h.started, h.ahead_of_sublist hc rfl rfl (fun _ => rfl) (.refl _)⟩
  | closes => exact ⟨h.started, h.ahead_of_sublist hc rfl rfl (fun _ => rfl) (.refl _)⟩
  | disconnects => exact ⟨h.started, h.ahead_of_sublist hc rfl rfl (fun _ => rfl) (.refl _)⟩
  | refuses => exact ⟨h.started, h.ahead_of_sublist hc rfl rfl id (List.sublist_cons_self _ _)⟩
  | leaves => exact ⟨h.started, h.ahead_of_sublist hc rfl rfl id (.refl _)⟩
  | cleansUp => exact ⟨h.started, h.ahead_of_sublist hc rfl rfl id (.refl _)⟩

private theorem Ranked.moves {s s' : Queues} (h : s.Ranked) {k : Nat} {c : Consumer}
    (hc : s.consumers[k]? = some c) (hmoves : Moves s k c s')
    (hown : s'.current = s.current ∨ c.phase.retired ∧ (s.current = none ∨ s.current = some k)) : s'.Ranked := by
  obtain ⟨hstarted, hahead⟩ := h.order_moves hc hmoves
  obtain ⟨rfl | ⟨c', hconsumers, hretired, hclosed, -⟩, -⟩ := hmoves.shape
  · exact h
  · refine ⟨fun j d hd hother => ?_, fun j d hd hd_closed => ?_, hstarted, hahead⟩
    · rw [hconsumers] at hd
      rcases getElem?_set_cases hd with ⟨rfl, rfl⟩ | ⟨hne, hold⟩
      · refine hretired ?_
        rcases hown with hsame | ⟨hdone, -⟩
        · exact h.others j c hc (hsame ▸ hother)
        · exact hdone
      · refine h.others j d hold ?_
        rcases hown with hsame | ⟨-, hnone | hself⟩
        · exact hsame ▸ hother
        · rw [hnone]
          exact (Option.some_ne_none j).symm
        · rw [hself]
          exact fun hj => hne (Option.some.inj hj).symm
    · rw [hconsumers] at hd
      rcases getElem?_set_cases hd with ⟨rfl, rfl⟩ | ⟨-, hold⟩
      · rcases hclosed hd_closed with hbefore | hnow
        · exact hretired (h.closed j c hc hbefore)
        · exact hnow
      · exact h.closed j d hold hd_closed

private theorem Ranked.sends {s s' : Queues} (h : s.Ranked) (hanswered : s.Answered) (hsends : Sends s s') :
    s'.Ranked := by
  cases hsends with
  | makes hclosed =>
    refine ⟨fun k c hc hother => ?_, fun k c hc => ?_, h.started, fun k c hc hlive => ?_⟩
    · rcases getElem?_concat_cases hc with ⟨-, hold⟩ | ⟨rfl, rfl⟩
      · by_cases hk : s.current = some k
        · exact h.closed k c hold (hclosed k c hk hold)
        · exact h.others k c hold hk
      · exact absurd rfl hother
    · rcases getElem?_concat_cases hc with ⟨-, hold⟩ | ⟨rfl, rfl⟩
      · exact h.closed k c hold
      · exact nofun
    · rcases getElem?_concat_cases hc with ⟨-, hold⟩ | ⟨rfl, rfl⟩
      · exact h.ahead k c hold hlive
      · refine List.pairwise_append.mpr ⟨h.started, List.pairwise_singleton _ _, fun m hm n hn => ?_⟩
        rw [List.mem_singleton.mp hn]
        exact hanswered.started_lt_sent hm
  | full => exact ⟨h.others, h.closed, h.started, h.ahead⟩
  | @joins k c _ hc =>
    refine ⟨fun j d hd => ?_, fun j d hd => ?_, h.started, fun j d hd hlive => ?_⟩
    · rcases getElem?_set_cases hd with ⟨rfl, rfl⟩ | ⟨-, hold⟩
      · exact h.others j c hc
      · exact h.others j d hold
    · rcases getElem?_set_cases hd with ⟨rfl, rfl⟩ | ⟨-, hold⟩
      · exact h.closed j c hc
      · exact h.closed j d hold
    · rcases getElem?_set_cases hd with ⟨rfl, rfl⟩ | ⟨-, hold⟩
      · rw [← List.append_assoc]
        refine List.pairwise_append.mpr ⟨h.ahead j c hc hlive, List.pairwise_singleton _ _, fun m hm n hn => ?_⟩
        rw [List.mem_singleton.mp hn]
        exact (List.mem_append.mp hm).elim hanswered.started_lt_sent (hanswered.buffer_lt_sent hc)
      · exact h.ahead j d hold hlive

private theorem Ranked.step {s : Queues} (h : s.Ranked) (hanswered : s.Answered) {e : Event}
    (horderly : s.Orderly e) : (s.step e).Ranked := by
  cases e with
  | enqueue => exact h.sends hanswered (enqueue_sends s)
  | consumer k move =>
    rw [Queues.step]
    cases hc : s.consumers[k]? with
    | none => exact h
    | some c =>
      refine h.moves hc (consume_moves s k c move) ?_
      by_cases hmove : move = .cleanup
      · subst hmove
        dsimp only
        rw [consume]
        split_ifs with hleaving
        · refine .inr ⟨?_, horderly⟩
          rw [hleaving]
          rfl
        · exact .inl rfl
      · exact .inl (consume_current s k c hmove)
  | shutdown => exact horderly.elim

end Queues

/-! ## Results -/

private theorem sound_run (is : List Event) : (queues.run is).Sound := by
  have hinit : Queues.Sound {} := ⟨⟨.refl _, .refl _, by simp, by simp⟩, by simp⟩
  exact Machine.invariant_runFrom (fun _ e h _ => h.step e) hinit (Machine.steps_true _ _ is)

/-- Every message is waiting, in its turn, in its notice, or settled, and it has one turn at most. -/
theorem messages_answered (is : List Event) : (queues.run is).Answered ∧ (queues.run is).started.Nodup := by
  have h := (sound_run is).answered
  refine ⟨h, h.turns.nodup_iff.mpr ?_⟩
  exact (h.placed.nodup_iff.mpr List.nodup_range).sublist (Queues.turns_sublist_places _)

/-- While the consumers clean up after themselves only, the turns of a conversation come one after the other. -/
theorem turns_in_order (is : List Event) (h : queues.Steps Queues.Orderly queues.init is) :
    (queues.run is).InOrder := by
  have hinit : Queues.Sound {} ∧ Queues.Ranked {} :=
    ⟨sound_run [], by simp, by simp, List.Pairwise.nil, by simp⟩
  have hranked : (queues.run is).Ranked :=
    (Machine.invariant_runFrom (I := fun s => s.Sound ∧ s.Ranked)
      (fun _ e hs he => ⟨hs.1.step e, hs.2.step hs.1.answered he⟩) hinit h).2
  refine ⟨fun j k m n c d hc hd hcm hdn => ?_, hranked.started⟩
  -- a consumer whose turn runs is that of the map
  have hcurrent {i : Nat} {b : Consumer} {l : Nat} (hb : (queues.run is).consumers[i]? = some b)
      (hphase : b.phase = .processing l) : (queues.run is).current = some i := by
    by_contra hother
    have hretired := hranked.others i b hb hother
    rw [hphase] at hretired
    cases hretired
  exact Option.some.inj ((hcurrent hc hcm).symm.trans (hcurrent hd hdn))

/-- A queue that was closed, and the one made after it. -/
theorem turns_in_order_renewed : (queues.run [.enqueue, .enqueue, .consumer 0 (.receive false), .consumer 0 .finish,
    .consumer 0 (.receive false), .consumer 0 .finish, .consumer 0 .expire, .consumer 0 .close, .consumer 0 .drain,
    .consumer 0 .cleanup, .enqueue, .consumer 1 (.receive false)]).InOrder :=
  turns_in_order _ (by decide)

/-- A consumer that leaves while the turn of a newer queue runs takes the entry of that queue with it, and the next
    message has its turn beside the one that runs. -/
theorem stale_cleanup_overlaps (is : List Event) {j k m : Nat} {c d : Consumer}
    (hj : (queues.run is).consumers[j]? = some c) (hleaving : c.phase = .leaving)
    (hk : (queues.run is).consumers[k]? = some d) (hrunning : d.phase = .processing m) :
    ¬ (queues.run (is ++ [.consumer j .cleanup, .enqueue,
      .consumer (queues.run is).consumers.length (.receive false)])).InOrder := by
  intro hsingle
  rw [Machine.run, Machine.runFrom_append] at hsingle
  change (queues.runFrom (queues.run is) _).InOrder at hsingle
  generalize queues.run is = s at hj hk hsingle
  have hne : j ≠ k := by
    rintro rfl
    rw [Option.some.inj (hj.symm.trans hk), hrunning] at hleaving
    cases hleaving
  have hlt := (List.getElem?_eq_some_iff.mp hk).1
  -- the entry is gone
  have hcleanup : s.step (.consumer j .cleanup) =
      { s.goOn j { c with phase := .done } with current := none } := by
    rw [Queues.step, hj]
    exact if_pos hleaving
  -- the next message has a queue of its own
  have hturn : (({ s.goOn j { c with phase := .done } with current := none } : Queues).createAndSend.step
      (.consumer s.consumers.length (.receive false))).consumers =
      s.consumers.set j { c with phase := .done } ++ [{ phase := .processing s.sent }] := by
    have hlength : (s.consumers.set j { c with phase := .done }).length = s.consumers.length := List.length_set
    rw [Queues.step, Queues.createAndSend, Queues.goOn, ← hlength, List.getElem?_concat_length]
    dsimp only
    rw [Queues.consume]
    exact List.set_append_right _ _ le_rfl |>.trans (by rw [Nat.sub_self]; rfl)
  change (((s.step (.consumer j .cleanup)).step .enqueue).step
    (.consumer s.consumers.length (.receive false))).InOrder at hsingle
  rw [hcleanup] at hsingle
  have hsame := hsingle.single k s.consumers.length m s.sent d { phase := .processing s.sent } ?_ ?_ hrunning rfl
  · exact hlt.ne hsame
  · refine (congrArg (·[k]?) hturn).trans ?_
    rw [List.getElem?_append_left (by rw [List.length_set]; exact hlt), List.getElem?_set_ne hne]
    exact hk
  · refine (congrArg (·[s.consumers.length]?) hturn).trans ?_
    rw [List.getElem?_append_right (by rw [List.length_set]), List.length_set, Nat.sub_self]
    rfl

/-- Such a state is reached: the first consumer closes its queue, and a sender makes a new one before it leaves. -/
example : ¬ (queues.run ([.enqueue, .consumer 0 (.receive false), .consumer 0 .finish, .consumer 0 .expire,
    .consumer 0 .close, .consumer 0 .drain, .enqueue, .consumer 1 (.receive false)] ++
    [.consumer 0 .cleanup, .enqueue, .consumer 2 (.receive false)])).InOrder :=
  stale_cleanup_overlaps _ (j := 0) (k := 1) (m := 1) rfl rfl rfl rfl

end TeamClu.SessionQueue
