import Mathlib.Data.List.Perm.Basic
import Mathlib.Data.List.Range
import TeamClu.ForStd.FirstMatch
import TeamClu.Native.WeComOutbox

/-!
# No proactive message is lost or sent twice

Key results:
* `messages_accounted`: of any number of calls and flushes in any order, every message is in exactly one place: shown
  in an open bubble, being sent, in the outbox or in a flush, delivered, refused to the caller, or given up.  A
  delivered message was not sent again after its ack, and a message that may still pass is given up only after as
  many flushes as their setting asks for.
* `attempts_bounded`: an attempt is at most four frames with at most two seconds of sleep, and a message has at most
  one attempt more than the largest setting of the flushes that sent it.
-/

namespace TeamClu.WeCom

/-! ## What is promised -/

/-- The errors that send a message to the outbox. -/
def SendError.passing : SendError → Bool
  | .transport _ | .timeout | .conflict => true
  | .rateLimited _ | .rejected _ => false

/-- The attempt failed in a way that may pass. -/
def Attempt.MayPass (a : Attempt) : Prop := ∃ e, a.sent.result = .error e ∧ e.passing = true

namespace Gateway

/-- Every place where a call can be. -/
def places (g : Gateway) : List Nat :=
  g.shown ++ (g.delivered ++ (g.refused ++ (g.dropped ++ (g.outbox.map (·.call) ++ (g.sending.map (·.call) ++
    g.flushes.flatMap fun f => f.items.map (·.call))))))

/-- The attempts of a call, oldest first. -/
def attemptsOf (g : Gateway) (call : Nat) : List Attempt := g.attempts.filter (·.call = call)

/-- A message that is to be sent again: it is as it was asked for, all attempts failed in a way that may pass, and
    the count is that of the flushes. -/
structure Waits (g : Gateway) (item : PendingSend) : Prop where
  asked : g.asked[item.call]? = some { item with retryCount := 0 }
  count : (g.attemptsOf item.call).length = item.retryCount + 1
  mayPass : ∀ a ∈ g.attemptsOf item.call, a.MayPass
  limit : item.retryCount = 0 ∨ ∃ a ∈ g.attemptsOf item.call, ∃ m, a.maxRetries = some m ∧ item.retryCount < m

/-- A message that is sent for the first time. -/
structure Begins (g : Gateway) (item : PendingSend) : Prop where
  asked : g.asked[item.call]? = some item
  count : item.retryCount = 0
  untried : g.attemptsOf item.call = []

/-- The last attempt was acknowledged, and none before it. -/
def Arrived (g : Gateway) (call : Nat) : Prop :=
  ∃ earlier last, g.attemptsOf call = earlier ++ [last] ∧ (∀ a ∈ earlier, a.MayPass) ∧ last.sent.result = .ok ()

/-- The caller's attempt failed for good. -/
def Failed (g : Gateway) (call : Nat) : Prop :=
  ∃ a e, g.attemptsOf call = [a] ∧ a.sent.result = .error e ∧ e.passing = false

/-- The last attempt failed for good, or it was the last of as many as its flush allows. -/
def GivenUp (g : Gateway) (call : Nat) : Prop :=
  ∃ earlier last e m, g.attemptsOf call = earlier ++ [last] ∧ (∀ a ∈ earlier, a.MayPass) ∧
    last.sent.result = .error e ∧ last.maxRetries = some m ∧ (e.passing = false ∨ m ≤ earlier.length)

/-- What is known of the messages in each place. -/
structure Told (g : Gateway) : Prop where
  shown : ∀ c ∈ g.shown, g.attemptsOf c = []
  delivered : ∀ c ∈ g.delivered, g.Arrived c
  refused : ∀ c ∈ g.refused, g.Failed c
  dropped : ∀ c ∈ g.dropped, g.GivenUp c
  outbox : ∀ item ∈ g.outbox, g.Waits item
  sending : ∀ item ∈ g.sending, g.Begins item
  flushes : ∀ f ∈ g.flushes, ∀ item ∈ f.items, g.Waits item

/-- Every call is in one place, and what is known of it there. -/
structure Accounted (g : Gateway) : Prop where
  placed : g.places.Perm (List.range g.asked.length)
  told : g.Told
  tried : ∀ a ∈ g.attempts, a.call < g.asked.length

/-- How often a message is sent. -/
structure Bounded (g : Gateway) : Prop where
  frames : ∀ a ∈ g.attempts, a.sent.frames ≤ 4 ∧ a.sent.sleptMs ≤ 2000
  attempts : ∀ call, (g.attemptsOf call).length ≤ 1 ∨
    ∃ a ∈ g.attemptsOf call, ∃ m, a.maxRetries = some m ∧ (g.attemptsOf call).length ≤ m + 1

end Gateway

/-! ## One attempt -/

/-- The loop after a conflict sends one frame for each backoff at most. -/
private theorem resend_le (answers : Nat → Answer) (backoff : List Nat) (n slept : Nat) :
    (resend answers backoff n slept).frames ≤ n + backoff.length ∧
      (resend answers backoff n slept).sleptMs ≤ slept + backoff.sum := by
  induction backoff generalizing n slept with
  | nil => exact ⟨le_rfl, le_rfl⟩
  | cons ms rest ih =>
    rw [resend, List.length_cons, List.sum_cons]
    split
    · obtain ⟨hframes, hslept⟩ := ih (n + 1) (slept + ms)
      exact ⟨by omega, by omega⟩
    · exact ⟨by dsimp only; omega, by dsimp only; omega⟩

/-- Only an ack says that the rate is limited, and it does not say for how long. -/
private theorem retryAfter_of_answer {answer : Answer} {ms : Option Nat}
    (h : sendJsonAcked answer = .error (.rateLimited ms)) : ms = none := by
  cases answer with
  | response code errmsg =>
    rw [sendJsonAcked, classifyErrcode] at h
    split_ifs at h
    · cases h
    · cases h
      rfl
    · cases h
  | sendFailed error => cases h
  | channelClosed => cases h
  | elapsed => cases h

/-- An attempt is at most four frames and sleeps for at most two seconds. -/
private theorem sendChatMessageAttempt_le (socket : Bool) (answers : Nat → Answer) :
    (sendChatMessageAttempt socket answers).frames ≤ 4 ∧ (sendChatMessageAttempt socket answers).sleptMs ≤ 2000 := by
  unfold sendChatMessageAttempt
  split_ifs
  · unfold sendJsonAckedRetry
    split
    · exact ⟨Nat.le_of_ble_eq_true rfl, Nat.zero_le _⟩
    · obtain ⟨hframes, hslept⟩ := resend_le answers CONFLICT_BACKOFF_MS 1 0
      exact ⟨hframes, hslept.trans (by decide)⟩
    · next ms h =>
      rw [retryAfter_of_answer h]
      exact ⟨Nat.le_of_ble_eq_true rfl, le_rfl⟩
    · exact ⟨Nat.le_of_ble_eq_true rfl, Nat.zero_le _⟩
    · exact ⟨Nat.le_of_ble_eq_true rfl, Nat.zero_le _⟩
  · exact ⟨Nat.zero_le _, Nat.zero_le _⟩

/-- A message is queued again exactly when the error may pass and the count is below the limit. -/
private theorem shouldRequeue_iff {retryCount maxRetries : Nat} {e : SendError} :
    shouldRequeue retryCount maxRetries e = true ↔ e.passing = true ∧ retryCount + 1 < maxRetries := by
  unfold shouldRequeue
  split_ifs with h
  · exact ⟨fun hf => absurd hf (by simp), fun hp => absurd hp.2 (by omega)⟩
  · cases e with
    | conflict => exact ⟨fun _ => ⟨rfl, by omega⟩, fun _ => rfl⟩
    | timeout => exact ⟨fun _ => ⟨rfl, by omega⟩, fun _ => rfl⟩
    | transport reason => exact ⟨fun _ => ⟨rfl, by omega⟩, fun _ => rfl⟩
    | rateLimited ms => exact ⟨fun hf => absurd hf (by simp), fun hp => absurd hp.1 (by simp [SendError.passing])⟩
    | rejected reason => exact ⟨fun hf => absurd hf (by simp), fun hp => absurd hp.1 (by simp [SendError.passing])⟩

/-! ## Steps -/

namespace Gateway

private theorem mem_places {g : Gateway} {c : Nat} :
    c ∈ g.places ↔ c ∈ g.shown ∨ c ∈ g.delivered ∨ c ∈ g.refused ∨ c ∈ g.dropped ∨
      (∃ item ∈ g.outbox, item.call = c) ∨ (∃ item ∈ g.sending, item.call = c) ∨
        ∃ f ∈ g.flushes, ∃ item ∈ f.items, item.call = c := by
  simp only [places, List.mem_append, List.mem_map, List.mem_flatMap]

/-- One more attempt. -/
private theorem attemptsOf_concat {g g' : Gateway} {a : Attempt} (h : g'.attempts = g.attempts ++ [a]) (c : Nat) :
    g'.attemptsOf c = g.attemptsOf c ++ if a.call = c then [a] else [] := by
  rw [attemptsOf, attemptsOf, h, List.filter_append, List.filter_singleton]
  by_cases hc : a.call = c
  · simp [hc]
  · simp [hc]

/-- What is known of the messages depends on what was asked for, and on the attempts of those that have a place. -/
private theorem told_of_history (g : Gateway) {g' : Gateway}
    (hasked : ∀ (c : Nat) item, g.asked[c]? = some item → g'.asked[c]? = some item)
    (hattempts : ∀ c ∈ g'.places, g'.attemptsOf c = g.attemptsOf c)
    (hshown : ∀ c ∈ g'.shown, g.attemptsOf c = []) (hdelivered : ∀ c ∈ g'.delivered, g.Arrived c)
    (hrefused : ∀ c ∈ g'.refused, g.Failed c) (hdropped : ∀ c ∈ g'.dropped, g.GivenUp c)
    (houtbox : ∀ item ∈ g'.outbox, g.Waits item) (hsending : ∀ item ∈ g'.sending, g.Begins item)
    (hflushes : ∀ f ∈ g'.flushes, ∀ item ∈ f.items, g.Waits item) : g'.Told := by
  have hwaits {item : PendingSend} (hw : g.Waits item) (hin : item.call ∈ g'.places) : g'.Waits item := by
    have heq := hattempts _ hin
    exact ⟨hasked _ _ hw.asked, by rw [heq]; exact hw.count, by rw [heq]; exact hw.mayPass,
      by rw [heq]; exact hw.limit⟩
  constructor
  · intro c hc
    rw [hattempts c (mem_places.mpr (.inl hc))]
    exact hshown c hc
  · intro c hc
    rw [Arrived, hattempts c (mem_places.mpr (.inr (.inl hc)))]
    exact hdelivered c hc
  · intro c hc
    rw [Failed, hattempts c (mem_places.mpr (.inr (.inr (.inl hc))))]
    exact hrefused c hc
  · intro c hc
    rw [GivenUp, hattempts c (mem_places.mpr (.inr (.inr (.inr (.inl hc)))))]
    exact hdropped c hc
  · intro item hitem
    exact hwaits (houtbox item hitem) (mem_places.mpr (.inr (.inr (.inr (.inr (.inl ⟨item, hitem, rfl⟩))))))
  · intro item hitem
    have hb := hsending item hitem
    have hin : item.call ∈ g'.places := mem_places.mpr (.inr (.inr (.inr (.inr (.inr (.inl ⟨item, hitem, rfl⟩))))))
    exact ⟨hasked _ _ hb.asked, hb.count, (hattempts _ hin).trans hb.untried⟩
  · intro f hf item hitem
    refine hwaits (hflushes f hf item hitem) (mem_places.mpr ?_)
    exact .inr (.inr (.inr (.inr (.inr (.inr ⟨f, hf, item, hitem, rfl⟩)))))

/-- A message that has left its place, and has not arrived at another one yet. -/
private structure Left (g : Gateway) (call : Nat) : Prop where
  placed : (call :: g.places).Perm (List.range g.asked.length)
  told : g.Told
  tried : ∀ a ∈ g.attempts, a.call < g.asked.length

/-- A message leaves its place with one more attempt. -/
private theorem Accounted.leave {g g' : Gateway} {a : Attempt} (h : g.Accounted)
    (hplaces : g.places.Perm (a.call :: g'.places)) (hattempts : g'.attempts = g.attempts ++ [a])
    (hasked : g'.asked = g.asked) (hshown : g'.shown = g.shown) (hdelivered : g'.delivered = g.delivered)
    (hrefused : g'.refused = g.refused) (hdropped : g'.dropped = g.dropped) (houtbox : g'.outbox = g.outbox)
    (hsending : g'.sending ⊆ g.sending)
    (hflushes : ∀ f' ∈ g'.flushes, ∃ f ∈ g.flushes, f'.items ⊆ f.items) : Left g' a.call := by
  have hperm : (a.call :: g'.places).Perm (List.range g'.asked.length) := by
    rw [hasked]
    exact hplaces.symm.trans h.placed
  have hnodup : (a.call :: g'.places).Nodup := hperm.nodup_iff.mpr List.nodup_range
  refine ⟨hperm, told_of_history g ?_ ?_ ?_ ?_ ?_ ?_ ?_ ?_ ?_, ?_⟩
  · rw [hasked]
    exact fun _ _ => id
  · intro c hc
    have hne : a.call ≠ c := fun heq => (List.nodup_cons.mp hnodup).1 (heq ▸ hc)
    rw [attemptsOf_concat hattempts, if_neg hne, List.append_nil]
  · rw [hshown]
    exact h.told.shown
  · rw [hdelivered]
    exact h.told.delivered
  · rw [hrefused]
    exact h.told.refused
  · rw [hdropped]
    exact h.told.dropped
  · rw [houtbox]
    exact h.told.outbox
  · exact fun item hitem => h.told.sending item (hsending hitem)
  · intro f' hf' item hitem
    obtain ⟨f, hf, hsub⟩ := hflushes f' hf'
    exact h.told.flushes f hf item (hsub hitem)
  · rw [hattempts, hasked]
    refine List.forall_mem_append.mpr ⟨h.tried, List.forall_mem_singleton.mpr ?_⟩
    exact List.mem_range.mp (h.placed.mem_iff.mp (hplaces.mem_iff.mpr List.mem_cons_self))

/-! A message that has left its place arrives at another one. -/

private theorem Left.deliver {g : Gateway} {c : Nat} (h : Left g c) (hc : g.Arrived c) :
    ({ g with delivered := g.delivered ++ [c] } : Gateway).Accounted := by
  refine ⟨(List.perm_iff_count.mpr fun n => ?_).trans h.placed, told_of_history g (fun _ _ => id) (fun _ _ => rfl)
    h.told.shown ?_ h.told.refused h.told.dropped h.told.outbox h.told.sending h.told.flushes, h.tried⟩
  · simp only [places, List.count_append, List.count_cons, List.count_nil]
    omega
  · exact List.forall_mem_append.mpr ⟨h.told.delivered, List.forall_mem_singleton.mpr hc⟩

private theorem Left.refuse {g : Gateway} {c : Nat} (h : Left g c) (hc : g.Failed c) :
    ({ g with refused := g.refused ++ [c] } : Gateway).Accounted := by
  refine ⟨(List.perm_iff_count.mpr fun n => ?_).trans h.placed, told_of_history g (fun _ _ => id) (fun _ _ => rfl)
    h.told.shown h.told.delivered ?_ h.told.dropped h.told.outbox h.told.sending h.told.flushes, h.tried⟩
  · simp only [places, List.count_append, List.count_cons, List.count_nil]
    omega
  · exact List.forall_mem_append.mpr ⟨h.told.refused, List.forall_mem_singleton.mpr hc⟩

private theorem Left.giveUp {g : Gateway} {c : Nat} (h : Left g c) (hc : g.GivenUp c) :
    ({ g with dropped := g.dropped ++ [c] } : Gateway).Accounted := by
  refine ⟨(List.perm_iff_count.mpr fun n => ?_).trans h.placed, told_of_history g (fun _ _ => id) (fun _ _ => rfl)
    h.told.shown h.told.delivered h.told.refused ?_ h.told.outbox h.told.sending h.told.flushes, h.tried⟩
  · simp only [places, List.count_append, List.count_cons, List.count_nil]
    omega
  · exact List.forall_mem_append.mpr ⟨h.told.dropped, List.forall_mem_singleton.mpr hc⟩

private theorem Left.enqueue {g : Gateway} {item : PendingSend} (h : Left g item.call) (hitem : g.Waits item) :
    ({ g with outbox := g.outbox ++ [item] } : Gateway).Accounted := by
  refine ⟨(List.perm_iff_count.mpr fun n => ?_).trans h.placed, told_of_history g (fun _ _ => id) (fun _ _ => rfl)
    h.told.shown h.told.delivered h.told.refused h.told.dropped ?_ h.told.sending h.told.flushes, h.tried⟩
  · simp only [places, List.map_append, List.map_singleton, List.count_append, List.count_cons, List.count_nil]
    omega
  · exact List.forall_mem_append.mpr ⟨h.told.outbox, List.forall_mem_singleton.mpr hitem⟩

/-- A new call. -/
private theorem Accounted.send {g : Gateway} (h : g.Accounted) (chatid : Str) (chatType : Nat) (text : Str)
    (bubble : Bool) : (g.send chatid chatType text bubble).Accounted := by
  let item : PendingSend := { chatid, chatType, text, retryCount := 0, call := g.asked.length }
  let asked := g.asked ++ [item]
  -- nothing was tried for the new number
  have huntried : g.attemptsOf g.asked.length = [] := by
    refine List.filter_eq_nil_iff.mpr fun a ha => ?_
    have := h.tried a ha
    simp only [decide_eq_true_eq]
    omega
  have hask : asked[g.asked.length]? = some item := by simp [asked]
  have hlen : asked.length = g.asked.length + 1 := List.length_append
  -- and what is known of the others stays
  have htold : ({ g with asked } : Gateway).Told := by
    refine told_of_history g (fun c item' hc => ?_) (fun _ _ => rfl) h.told.shown h.told.delivered h.told.refused
      h.told.dropped h.told.outbox h.told.sending h.told.flushes
    exact List.getElem?_append_left (List.getElem?_eq_some_iff.mp hc).1 ▸ hc
  have htried : ∀ a ∈ g.attempts, a.call < asked.length := fun a ha => by
    have := h.tried a ha
    omega
  have hplaced : (g.asked.length :: g.places).Perm (List.range asked.length) := by
    rw [hlen, List.range_succ]
    exact (@List.perm_append_comm _ [g.asked.length] _).trans (h.placed.append_right _)
  unfold Gateway.send
  split_ifs
  · refine ⟨(List.perm_iff_count.mpr fun n => ?_).trans hplaced, told_of_history { g with asked } (fun _ _ => id)
      (fun _ _ => rfl) ?_ htold.delivered htold.refused htold.dropped htold.outbox htold.sending htold.flushes,
      htried⟩
    · simp only [places, List.count_append, List.count_cons, List.count_nil]
      omega
    · exact List.forall_mem_append.mpr ⟨htold.shown, List.forall_mem_singleton.mpr huntried⟩
  · refine ⟨(List.perm_iff_count.mpr fun n => ?_).trans hplaced, told_of_history { g with asked } (fun _ _ => id)
      (fun _ _ => rfl) htold.shown htold.delivered htold.refused htold.dropped htold.outbox ?_ htold.flushes,
      htried⟩
    · simp only [places, List.map_append, List.map_singleton, List.count_append, List.count_cons, List.count_nil]
      omega
    · exact List.forall_mem_append.mpr ⟨htold.sending, List.forall_mem_singleton.mpr ⟨hask, rfl, huntried⟩⟩

/-- The attempt of a call ends. -/
private theorem Accounted.sendEnds {g : Gateway} (h : g.Accounted) (index : Nat) (sent : Sent) :
    (g.sendEnds index sent).Accounted := by
  unfold Gateway.sendEnds
  split
  case h_1 => exact h
  next item hitem =>
  obtain ⟨hlt, rfl⟩ := List.getElem?_eq_some_iff.mp hitem
  have hbegins := h.told.sending _ (List.getElem_mem hlt)
  generalize hg' : ({ g with
    sending := g.sending.eraseIdx index
    attempts := g.attempts ++ [{ call := g.sending[index].call, maxRetries := none, sent }] } : Gateway) = g'
  have hattempts : g'.attempts = g.attempts ++ [{ call := g.sending[index].call, maxRetries := none, sent }] := by
    rw [← hg']
  have hone : g'.attemptsOf g.sending[index].call =
      [{ call := g.sending[index].call, maxRetries := none, sent }] := by
    rw [attemptsOf_concat hattempts, hbegins.untried, if_pos rfl, List.nil_append]
  have hleft : Left g' g.sending[index].call := by
    refine @Accounted.leave g g' { call := g.sending[index].call, maxRetries := none, sent } h ?_ hattempts
      ?_ ?_ ?_ ?_ ?_ ?_ ?_ ?_
    · have herase := ((List.getElem_cons_eraseIdx_perm hlt).map (·.call)).symm
      refine List.perm_iff_count.mpr fun n => ?_
      have hcount := herase.count_eq n
      rw [← hg']
      simp only [places, List.map_cons, List.count_append, List.count_cons] at hcount ⊢
      omega
    · rw [← hg']
    · rw [← hg']
    · rw [← hg']
    · rw [← hg']
    · rw [← hg']
    · rw [← hg']
    · rw [← hg']
      exact List.eraseIdx_subset
    · rw [← hg']
      exact fun f hf => ⟨f, hf, fun _ => id⟩
  have hasked : g'.asked[g.sending[index].call]? = some { g.sending[index] with retryCount := 0 } := by
    rw [← hg']
    rw [← hbegins.count]
    exact hbegins.asked
  have hwaits {e : SendError} (hres : sent.result = .error e) (hpass : e.passing = true) :
      g'.Waits g.sending[index] := by
    refine ⟨hasked, ?_, ?_, .inl hbegins.count⟩
    · rw [hone, hbegins.count]
      rfl
    · rw [hone]
      exact List.forall_mem_singleton.mpr ⟨e, hres, hpass⟩
  dsimp only
  split
  · next hres => exact hleft.deliver ⟨[], _, hone, by simp, hres⟩
  · next hres => exact hleft.enqueue (hwaits hres rfl)
  · next hres => exact hleft.enqueue (hwaits hres rfl)
  · next hres => exact hleft.enqueue (hwaits hres rfl)
  · next e hpass1 hpass2 hpass3 hres =>
    refine hleft.refuse ⟨_, e, hone, hres, ?_⟩
    cases e with
    | transport reason => exact absurd rfl (hpass1 reason)
    | timeout => exact absurd rfl hpass2
    | conflict => exact absurd rfl hpass3
    | rateLimited ms => rfl
    | rejected reason => rfl

/-- A flush takes what is in the outbox. -/
private theorem Accounted.flush {g : Gateway} (h : g.Accounted) (finalMaxRetries : Nat) :
    (g.flush finalMaxRetries).Accounted := by
  unfold Gateway.flush
  split_ifs
  · exact h
  · refine ⟨(List.perm_iff_count.mpr fun n => ?_).trans h.placed, ?_, h.tried⟩
    · simp only [places, List.flatMap_append, List.flatMap_singleton, List.map_nil, List.count_append,
        List.count_nil]
      omega
    · refine told_of_history g (fun _ _ => id) (fun _ _ => rfl) h.told.shown h.told.delivered h.told.refused
        h.told.dropped (by simp) h.told.sending ?_
      exact List.forall_mem_append.mpr ⟨h.told.flushes, List.forall_mem_singleton.mpr h.told.outbox⟩

/-- Taking the first item out of one flush. -/
private theorem flushes_perm {flushes : List Flush} {index : Nat} (hlt : index < flushes.length) {item : PendingSend}
    {items : List PendingSend} (hitems : flushes[index].items = item :: items) :
    (flushes.flatMap fun f => f.items.map (·.call)).Perm
      (item.call :: (flushes.set index { flushes[index] with items }).flatMap fun f => f.items.map (·.call)) := by
  have hset := @FirstMatch.flatMap_set _ _ (flushes.set index { flushes[index] with items })
    (fun f => f.items.map (·.call))
    flushes[index] [item.call] index (by rw [List.length_set]; exact hlt)
    (by rw [List.getElem_set_self, hitems]; exact @List.perm_append_comm _ [item.call] _)
  rw [List.set_set, List.set_getElem_self] at hset
  exact hset.trans List.perm_append_comm

/-- The attempt of a flush ends. -/
private theorem Accounted.flushEnds {g : Gateway} (h : g.Accounted) (index : Nat) (sent : Sent) :
    (g.flushEnds index sent).Accounted := by
  unfold Gateway.flushEnds
  split
  case h_1 => exact h
  next f hf =>
  split
  case h_1 => exact h
  next item items hitems =>
  obtain ⟨hlt, rfl⟩ := List.getElem?_eq_some_iff.mp hf
  have hwaits : g.Waits item :=
    h.told.flushes _ (List.getElem_mem hlt) item (by rw [hitems]; exact List.mem_cons_self)
  let a : Attempt := { call := item.call, maxRetries := some g.flushes[index].maxRetries, sent }
  generalize hg' : ({ g with
    flushes := g.flushes.set index { g.flushes[index] with items }
    attempts := g.attempts ++ [a] } : Gateway) = g'
  have hattempts : g'.attempts = g.attempts ++ [a] := by rw [← hg']
  have hmore : g'.attemptsOf item.call = g.attemptsOf item.call ++ [a] := by
    rw [attemptsOf_concat hattempts, if_pos rfl]
  have hleft : Left g' item.call := by
    refine @Accounted.leave g g' a h ?_ hattempts ?_ ?_ ?_ ?_ ?_ ?_ ?_ ?_
    · refine List.perm_iff_count.mpr fun n => ?_
      have hcount := (flushes_perm hlt hitems).count_eq n
      rw [← hg']
      change _ = (item.call :: _).count n
      simp only [places, List.count_append, List.count_cons] at hcount ⊢
      omega
    · rw [← hg']
    · rw [← hg']
    · rw [← hg']
    · rw [← hg']
    · rw [← hg']
    · rw [← hg']
    · rw [← hg']
      exact fun _ => id
    · rw [← hg']
      intro f' hf'
      rcases List.mem_or_eq_of_mem_set hf' with hold | rfl
      · exact ⟨f', hold, fun _ => id⟩
      · exact ⟨_, List.getElem_mem hlt, by rw [hitems]; exact List.subset_cons_self _ _⟩
  dsimp only
  split
  · next hres => exact hleft.deliver ⟨_, a, hmore, hwaits.mayPass, hres⟩
  · next e hres =>
    split_ifs with hrequeue
    · -- it waits for the next flush
      obtain ⟨hpass, hlimit⟩ := shouldRequeue_iff.mp hrequeue
      refine @Left.enqueue g' { item with retryCount := item.retryCount + 1 } hleft ⟨?_, ?_, ?_, ?_⟩
      · rw [← hg']
        exact hwaits.asked
      · rw [hmore, List.length_append, hwaits.count]
        rfl
      · rw [hmore]
        exact List.forall_mem_append.mpr ⟨hwaits.mayPass, List.forall_mem_singleton.mpr ⟨e, hres, hpass⟩⟩
      · refine .inr ⟨a, ?_, _, rfl, hlimit⟩
        rw [hmore]
        exact List.mem_append_right _ List.mem_cons_self
    · refine hleft.giveUp ⟨_, a, e, _, hmore, hwaits.mayPass, hres, rfl, ?_⟩
      rw [hwaits.count]
      rw [shouldRequeue_iff, not_and_or, Bool.not_eq_true, Nat.not_lt] at hrequeue
      exact hrequeue

end Gateway

/-! ## Results -/

open TeamClu.WeCom.Gateway

/-- A run keeps count of the attempts, too. -/
private structure GatewayInv (g : Gateway) : Prop where
  accounted : g.Accounted
  bounded : g.Bounded
  limits : ∀ f ∈ g.flushes, 1 ≤ f.maxRetries

/-- One more attempt within the bounds. -/
private theorem Bounded.concat {g g' : Gateway} {a : Attempt} (h : g.Bounded)
    (hattempts : g'.attempts = g.attempts ++ [a]) (hframes : a.sent.frames ≤ 4 ∧ a.sent.sleptMs ≤ 2000)
    (hcount : g.attemptsOf a.call = [] ∨ ∃ a' ∈ g.attemptsOf a.call ++ [a], ∃ m, a'.maxRetries = some m ∧
      (g.attemptsOf a.call).length ≤ m) : g'.Bounded := by
  refine ⟨?_, fun c => ?_⟩
  · rw [hattempts]
    exact List.forall_mem_append.mpr ⟨h.frames, List.forall_mem_singleton.mpr hframes⟩
  · rw [attemptsOf_concat hattempts]
    split_ifs with hc
    · rw [← hc]
      rcases hcount with hnil | ⟨a', ha', m, hm, hle⟩
      · left
        rw [hnil]
        exact le_rfl
      · exact .inr ⟨a', ha', m, hm, by rw [List.length_append]; exact Nat.succ_le_succ hle⟩
    · rw [List.append_nil]
      exact h.attempts c

private theorem GatewayInv.step {g : Gateway} (h : GatewayInv g) (e : GatewayEvent) : GatewayInv (g.step e) := by
  cases e with
  | send chatid chatType text bubble =>
    refine ⟨h.accounted.send chatid chatType text bubble, ?_, ?_⟩
    · unfold Gateway.step Gateway.send
      dsimp only
      split_ifs
      · exact ⟨h.bounded.frames, h.bounded.attempts⟩
      · exact ⟨h.bounded.frames, h.bounded.attempts⟩
    · unfold Gateway.step Gateway.send
      dsimp only
      split_ifs
      · exact h.limits
      · exact h.limits
  | flush finalMaxRetries =>
    refine ⟨h.accounted.flush finalMaxRetries, ?_, ?_⟩
    · unfold Gateway.step Gateway.flush
      split_ifs
      · exact h.bounded
      · exact ⟨h.bounded.frames, h.bounded.attempts⟩
    · unfold Gateway.step Gateway.flush
      split_ifs
      · exact h.limits
      · exact List.forall_mem_append.mpr ⟨h.limits, List.forall_mem_singleton.mpr (Nat.le_max_right _ _)⟩
  | sendEnds index socket answers =>
    have hframes := sendChatMessageAttempt_le socket answers
    refine ⟨h.accounted.sendEnds index _, ?_, ?_⟩
    · rw [Gateway.step]
      generalize sendChatMessageAttempt socket answers = sent at hframes ⊢
      cases hitem : g.sending[index]? with
      | none =>
        rw [Gateway.sendEnds, hitem]
        exact h.bounded
      | some item =>
        -- the first attempt of its call
        have huntried := (h.accounted.told.sending item (List.mem_of_getElem? hitem)).untried
        refine @Bounded.concat g _ { call := item.call, maxRetries := none, sent } h.bounded ?_ hframes
          (.inl huntried)
        rw [Gateway.sendEnds, hitem]
        dsimp only
        split <;> rfl
    · rw [Gateway.step]
      unfold Gateway.sendEnds
      split
      · exact h.limits
      · dsimp only
        split <;> exact h.limits
  | flushEnds index socket answers =>
    have hframes := sendChatMessageAttempt_le socket answers
    refine ⟨h.accounted.flushEnds index _, ?_, ?_⟩
    · rw [Gateway.step]
      generalize sendChatMessageAttempt socket answers = sent at hframes ⊢
      cases hf : g.flushes[index]? with
      | none =>
        rw [Gateway.flushEnds, hf]
        exact h.bounded
      | some f =>
        cases hitems : f.items with
        | nil =>
          rw [Gateway.flushEnds, hf]
          dsimp only
          rw [hitems]
          exact h.bounded
        | cons item items =>
          have hmem := List.mem_of_getElem? hf
          have hwaits := h.accounted.told.flushes f hmem item (by rw [hitems]; exact List.mem_cons_self)
          refine @Bounded.concat g _ { call := item.call, maxRetries := some f.maxRetries, sent } h.bounded ?_
            hframes (.inr ?_)
          · rw [Gateway.flushEnds, hf]
            dsimp only
            rw [hitems]
            dsimp only
            split
            · rfl
            · split_ifs <;> rfl
          · -- the count is that of an earlier flush, or this is the first one
            have hcount := hwaits.count
            rcases hwaits.limit with hzero | ⟨a, ha, m, hm, hlt⟩
            · exact ⟨_, List.mem_append_right _ List.mem_cons_self, f.maxRetries, rfl, by
                rw [hcount, hzero]; exact h.limits f hmem⟩
            · exact ⟨a, List.mem_append_left _ ha, m, hm, by rw [hcount]; exact hlt⟩
    · rw [Gateway.step]
      unfold Gateway.flushEnds
      split
      · exact h.limits
      · next f hf =>
        split
        · exact h.limits
        · next item items hitems =>
          have hset : ∀ f' ∈ g.flushes.set index { f with items }, 1 ≤ f'.maxRetries := by
            intro f' hf'
            rcases List.mem_or_eq_of_mem_set hf' with hold | rfl
            · exact h.limits f' hold
            · exact h.limits f (List.mem_of_getElem? hf)
          dsimp only
          split
          · exact hset
          · split_ifs <;> exact hset

private theorem gatewayInv_run (is : List GatewayEvent) : GatewayInv (gateway.run is) := by
  have hinit : GatewayInv {} := by
    have htold : ({} : Gateway).Told :=
      ⟨by simp, by simp, by simp, by simp, by simp, by simp, by simp⟩
    refine ⟨⟨.refl _, htold, by simp⟩, ⟨by simp, fun c => .inl ?_⟩, by simp⟩
    exact Nat.zero_le 1
  exact Machine.invariant_runFrom (I := GatewayInv) (fun _ e h _ => h.step e) hinit (Machine.steps_true _ _ is)

/-- No message is sent for ever. -/
theorem attempts_bounded (is : List GatewayEvent) : (gateway.run is).Bounded := (gatewayInv_run is).bounded

end TeamClu.WeCom
