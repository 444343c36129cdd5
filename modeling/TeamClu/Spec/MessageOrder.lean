import Mathlib.Data.Int.Order.Basic
import Mathlib.Data.List.Nodup
import TeamClu.ForStd.StableSort
import TeamClu.Native.MessageStore

/-!
# One reply per turn, in the order of arrival

What a run of deliveries keeps (`Kept`): the ids differ, the turns whose replies came through
`replaceTurnAgentRepliesInStore` have one reply each, and messages of the same second stand in the order of
their arrival.  A reply that is replaced goes behind all messages of its second, also behind those that
came after it, and the binary search does not find its place in a list that is not sorted.  A step that
does neither is `Steady`.

## Key results

- `searchUpperBound_spec`: the search ends in front of a later message, sorted or not
- `replace_eq`: a replaced reply is put among the other entries, which stay as they are
- `Kept.step`: what a steady step keeps
- `run_kept`: what a run of steady steps keeps
-/

namespace TeamClu.MessageStore

variable {merges : Merges}

/-! ## Arrival -/

/-- Whether the delivery replaces the replies of a turn. -/
def Op.replaces : Op → Bool
  | .append _ => false
  | .replace message => message.isTurnReply

/-- Whether the row is a reply that the delivery replaces. -/
def Op.replacesRow (row : Message) (op : Op) : Bool :=
  op.replaces && row.inTurn op.message.turnId op.message.senderActorId

/-- Whether the delivery is of a reply of the row's turn. -/
def Op.deliversTurn (row : Message) (op : Op) : Bool :=
  op.message.inTurn row.turnId row.senderActorId && row.kind == .agentReply

/-- Whether the delivery is of the row's message. -/
def Op.delivers (row : Message) (op : Op) : Bool := op.message.messageId == row.messageId

/-- When the row's message arrived first; when the row was put for a turn, the first reply of the turn. -/
def arrival (ops : List Op) (row : Message) : Nat :=
  if ops.any (fun op => op.replaces && op.delivers row && op.deliversTurn row) then
    ops.findIdx (·.deliversTurn row)
  else ops.findIdx (·.delivers row)

/-- The messages of one second stand in the order of arrival, once the list is sorted by time. -/
def InOrderOfArrival (ops : List Op) (messages : List Message) : Prop :=
  (messages.mergeSort (StableSort.keyLe (·.createdAt))).Pairwise fun a b =>
    a.createdAt = b.createdAt → arrival ops a < arrival ops b

/-- The other entries stay as they are: the list is the old one, or, without the replies that are replaced,
    the old one with the entry of the message put in. -/
def OthersKept (op : Op) (cur next : List Message) : Prop :=
  next = cur ∨ ∃ before row after, next = before ++ row :: after ∧
    row.messageId = op.message.messageId ∧ before ++ after = cur.filter (!op.replacesRow ·)

/-- The replies of the turn came through `replaceTurnAgentRepliesInStore`. -/
def RepliesReplaced (ops : List Op) (turnId senderActorId : Str) : Prop :=
  (∃ op ∈ ops, op.message.inTurn turnId senderActorId = true) ∧
    ∀ op ∈ ops, op.message.inTurn turnId senderActorId = true → ∃ message, op = .replace message

/-- The turn has one reply, with parts if one of those delivered had. -/
def OneReply (ops : List Op) (messages : List Message) (turnId senderActorId : Str) : Prop :=
  ∃ row, messages.filter (·.inTurn turnId senderActorId) = [row] ∧
    ((∃ op ∈ ops, op.message.inTurn turnId senderActorId = true ∧ protoPartsJson op.message ≠ []) →
      protoPartsJson row ≠ [])

/-- One reply per turn, and the order of arrival. -/
structure Kept (ops : List Op) (messages : List Message) : Prop where
  ids : (messages.map (·.messageId)).Nodup
  oneReply : ∀ turnId senderActorId, Str.jsTrim turnId ≠ [] → Str.jsTrim senderActorId ≠ [] →
    RepliesReplaced ops turnId senderActorId → OneReply ops messages turnId senderActorId
  order : InOrderOfArrival ops messages

/-! ## Steady steps -/

/-- Every one of the rows that is of the message's second arrived before it. -/
def ArrivedBefore (ops : List Op) (op : Op) (rows : List Message) : Prop :=
  ∀ row ∈ rows, row.createdAt = op.message.createdAt →
    arrival (ops ++ [op]) row < arrival (ops ++ [op]) op.message

/-- A replaced reply: the trimmed ids find the replies of the turn, no other entry has the message's id, and
    every other entry of its second arrived before the turn's first reply and stands behind no later one. -/
structure SteadyReplace (ops : List Op) (cur : List Message) (op : Op) : Prop where
  turn : ∀ row ∈ cur,
    row.inTurn (Str.jsTrim op.message.turnId) (Str.jsTrim op.message.senderActorId) =
      row.inTurn op.message.turnId op.message.senderActorId
  sameId : ∀ row ∈ cur, row.messageId = op.message.messageId → op.replacesRow row = true
  arrived : ArrivedBefore ops op (cur.filter (!op.replacesRow ·))
  sorted : (cur.filter (!op.replacesRow ·)).Pairwise fun a b =>
    b.createdAt = op.message.createdAt → a.createdAt ≤ op.message.createdAt

/-- A step that keeps the order.  A message that is appended is not in the list; every entry of its second
    arrived before it. -/
def Steady (ops : List Op) (cur : List Message) (op : Op) : Prop :=
  (op.replaces = true → SteadyReplace ops cur op) ∧
    (op.replaces = false → (∀ row ∈ cur, row.messageId ≠ op.message.messageId) →
      ArrivedBefore ops op cur)

/-! ## One delivery -/

/-- The search ends in front of a later message or at the end, whether the list is sorted or not. -/
theorem searchUpperBound_spec {α : Type} {later : α → Bool} {rows : List α} {lo hi : Nat} (hle : lo ≤ hi)
    (hhi : hi ≤ rows.length) (hlater : ∀ row, rows[hi]? = some row → later row = true) :
    let found := searchUpperBound later rows lo hi
    found ≤ rows.length ∧ ∀ row, rows[found]? = some row → later row = true := by
  fun_induction searchUpperBound later rows lo hi with
  | case1 lo hi hlt mid hnone =>
    rw [List.getElem?_eq_none_iff] at hnone
    omega
  | case2 lo hi hlt mid row hrow hafter ih =>
    refine ih (by omega) (by omega) fun row' hrow' => ?_
    rw [hrow, Option.some_inj] at hrow'
    exact hrow' ▸ hafter
  | case3 lo hi hlt mid row hrow hbefore ih => exact ih (by omega) hhi hlater
  | case4 lo hi hge =>
    obtain rfl : lo = hi := by omega
    exact ⟨hhi, hlater⟩

/-- A message without the id of another is put in front of a later one. -/
theorem insertProtoMessageSorted_spec {messages : List Message} {message : Message}
    (hid : ∀ row ∈ messages, row.messageId ≠ message.messageId) :
    ∃ before after, insertProtoMessageSorted messages message = before ++ message :: after ∧
      messages = before ++ after ∧ ∀ row ∈ after.head?, message.createdAt < row.createdAt := by
  have hany : messages.any (·.messageId == message.messageId) = false := by simpa using hid
  obtain ⟨-, hlater⟩ := @searchUpperBound_spec _ (fun row => message.createdAt < row.createdAt) messages 0
    messages.length (Nat.zero_le _) le_rfl (fun row hrow => by simp at hrow)
  rw [insertProtoMessageSorted, hany, if_neg Bool.false_ne_true]
  split
  · next hnil =>
    rw [List.length_eq_zero_iff] at hnil
    exact ⟨[], [], rfl, hnil, fun _ h => nomatch h⟩
  · refine ⟨_, _, rfl, (List.take_append_drop _ _).symm, fun row hrow => of_decide_eq_true (hlater row ?_)⟩
    rwa [List.head?_drop] at hrow

/-- What `appendMessage` does. -/
theorem appendMessage_cases (cur : List Message) (message : Message) :
    (appendMessage cur message = cur ∧ ∃ row ∈ cur, row.messageId = message.messageId) ∨
      (appendMessage cur message = cur ++ [message] ∧
        ∀ row ∈ cur, row.messageId ≠ message.messageId) := by
  rw [appendMessage]
  split
  · next hany => exact .inl ⟨rfl, by simpa using hany⟩
  · next hany => exact .inr ⟨rfl, by simpa using hany⟩

/-- A delivery that replaces nothing is appended. -/
theorem step_of_not_replaces {op : Op} (cur : List Message) (h : op.replaces = false) :
    step merges cur op = appendMessage cur op.message := by
  cases op with
  | append message => rfl
  | replace message =>
    have hnot : message.isTurnReply = false := h
    rw [step, replaceTurnAgentRepliesInStore, if_pos hnot]
    rfl

/-- What a merge leaves of the incoming reply. -/
structure MergeOf (message merged : Message) : Prop where
  messageId : merged.messageId = message.messageId
  turnId : merged.turnId = message.turnId
  senderActorId : merged.senderActorId = message.senderActorId
  kind : merged.kind = message.kind
  createdAt : merged.createdAt = message.createdAt

/-- A merged reply has parts if one of the two has. -/
theorem protoPartsJson_merge (existing incoming : Message) :
    protoPartsJson (mergeTurnAgentReplyProto merges existing incoming) ≠ [] ↔
      protoPartsJson incoming ≠ [] ∨ protoPartsJson existing ≠ [] := by
  have hkeep : ∀ m, protoPartsJson m ≠ [] → Str.jsTrim (protoPartsJson m) ≠ [] :=
    fun m hm hnil => hm (Str.jsTrim_jsTrim_eq_nil.mp hnil)
  by_cases hincoming : protoPartsJson incoming = []
  · simp only [hincoming, ne_eq, not_true_eq_false, false_or]
    rw [protoPartsJson, mergeTurnAgentReplyProto]
    simp only [hincoming, ne_eq, not_true_eq_false, if_false]
    by_cases hexisting : protoPartsJson existing = []
    · simp [hexisting, Str.jsTrim]
    · rw [if_pos hexisting]
      exact ⟨fun _ => hexisting, fun _ => hkeep _ hexisting⟩
  · refine ⟨fun _ => .inl hincoming, fun _ => ?_⟩
    rw [protoPartsJson, mergeTurnAgentReplyProto]
    simp only [ne_eq, hincoming, not_false_eq_true, if_true]
    exact hkeep _ hincoming

/-- Nothing but the incoming reply decides where a merged one belongs. -/
theorem mergeOf_merge (existing incoming : Message) :
    MergeOf incoming (mergeTurnAgentReplyProto merges existing incoming) := ⟨rfl, rfl, rfl, rfl, rfl⟩

theorem MergeOf.refl (message : Message) : MergeOf message message := ⟨rfl, rfl, rfl, rfl, rfl⟩

/-- A merged reply is of the turns of the incoming one. -/
theorem MergeOf.inTurn {message merged : Message} (h : MergeOf message merged) (turnId senderActorId : Str) :
    merged.inTurn turnId senderActorId = message.inTurn turnId senderActorId := by
  rw [Message.inTurn, Message.inTurn, h.turnId, h.senderActorId, h.kind]

/-- A merged reply arrived when the incoming one did. -/
theorem MergeOf.arrival {message merged : Message} (h : MergeOf message merged) (ops : List Op) :
    arrival ops merged = arrival ops message := by
  have hturn : ∀ op : Op, op.deliversTurn merged = op.deliversTurn message := fun op => by
    rw [Op.deliversTurn, Op.deliversTurn, h.turnId, h.senderActorId, h.kind]
  have hid : ∀ op : Op, op.delivers merged = op.delivers message := fun op => by
    rw [Op.delivers, Op.delivers, h.messageId]
  simp only [MessageStore.arrival, hturn, hid]

/-- The entry of the message, put among the others. -/
structure Put (ops : List Op) (op : Op) (cur before : List Message) (row : Message)
    (after : List Message) : Prop where
  message : MergeOf op.message row
  others : before ++ after = cur.filter (!op.replacesRow ·)
  newId : ∀ other ∈ before ++ after, other.messageId ≠ op.message.messageId
  last : ∀ other ∈ after, other.createdAt ≠ op.message.createdAt
  arrived : ArrivedBefore ops op (before ++ after)
  parts : protoPartsJson row ≠ [] ↔ protoPartsJson op.message ≠ [] ∨
    ∃ old ∈ cur, op.replacesRow old = true ∧ protoPartsJson old ≠ []

/-- The reply that replaces those of its turn: the first of them with parts, or else the last, is merged into
    it. -/
private theorem merged_spec (merges : Merges) (existing : List Message) (message : Message) :
    MergeOf message (mergedReply merges existing message) ∧
      (protoPartsJson (mergedReply merges existing message) ≠ [] ↔
        protoPartsJson message ≠ [] ∨ ∃ old ∈ existing, protoPartsJson old ≠ []) := by
  rw [mergedReply]
  cases hfind : existing.find? (protoPartsJson · != []) with
  | some prior =>
    have hprior : protoPartsJson prior ≠ [] := by simpa using List.find?_some hfind
    refine ⟨mergeOf_merge prior message, ?_⟩
    refine (protoPartsJson_merge prior message).trans ⟨Or.imp_right fun _ => ?_, fun _ => .inr hprior⟩
    exact ⟨prior, List.mem_of_find?_eq_some hfind, hprior⟩
  | none =>
    have hblank : ∀ old ∈ existing, protoPartsJson old = [] := by simpa using hfind
    have hnone : ¬ ∃ old ∈ existing, protoPartsJson old ≠ [] :=
      fun ⟨old, hold, hparts⟩ => hparts (hblank old hold)
    rw [Option.none_or]
    cases hlast : existing.getLast? with
    | none => exact ⟨MergeOf.refl message, by simp [hnone]⟩
    | some prior =>
      refine ⟨mergeOf_merge prior message, (protoPartsJson_merge prior message).trans ?_⟩
      simp [hnone, hblank prior (List.mem_of_getLast? hlast)]

/-- What a steady step does: the message is in the list already, or its entry is put among the others. -/
theorem step_cases (merges : Merges) {ops : List Op} {op : Op} {cur : List Message} (hsteady : Steady ops cur op) :
    (step merges cur op = cur ∧ op.replaces = false) ∨
      ∃ before row after, step merges cur op = before ++ row :: after ∧ Put ops op cur before row after := by
  cases hreplaces : op.replaces with
  | false =>
    have hnot : ∀ row, op.replacesRow row = false := fun row => by rw [Op.replacesRow, hreplaces]; rfl
    rw [step_of_not_replaces cur hreplaces]
    rcases appendMessage_cases cur op.message with ⟨hsame, -⟩ | ⟨happend, hid⟩
    · exact .inl ⟨hsame, rfl⟩
    · refine .inr ⟨cur, op.message, [], happend, MergeOf.refl _, ?_, ?_, ?_, ?_, ?_⟩
      · simp [hnot]
      · simpa using hid
      · simp
      · rw [List.append_nil]
        exact hsteady.2 hreplaces hid
      · simp [hnot]
  | true =>
    obtain ⟨hturn, hsameId, harrived, hsorted⟩ := hsteady.1 hreplaces
    cases op with
    | append message => cases hreplaces
    | replace message =>
      right
      have hmessage : message.isTurnReply = true := hreplaces
      have hrow : ∀ row ∈ cur, row.inTurn (Str.jsTrim message.turnId) (Str.jsTrim message.senderActorId) =
          Op.replacesRow row (.replace message) := by
        intro row hrow
        rw [Op.replacesRow, hreplaces, Bool.true_and]
        exact hturn row hrow
      have hrest : cur.filter (!·.inTurn (Str.jsTrim message.turnId) (Str.jsTrim message.senderActorId)) =
          cur.filter (!Op.replacesRow · (.replace message)) :=
        List.filter_congr fun row hmem => by rw [hrow row hmem]
      obtain ⟨hmerge, hparts⟩ := merged_spec merges
        (cur.filter (·.inTurn (Str.jsTrim message.turnId) (Str.jsTrim message.senderActorId))) message
      rw [step, replaceTurnAgentRepliesInStore, if_neg (by rw [hmessage]; decide), hrest]
      dsimp only
      generalize mergedReply merges _ message = merged at hmerge hparts ⊢
      have hid : ∀ row ∈ cur.filter (!Op.replacesRow · (.replace message)),
          row.messageId ≠ merged.messageId := by
        intro row hmem heq
        rw [List.mem_filter] at hmem
        rw [hsameId row hmem.1 (heq.trans hmerge.messageId)] at hmem
        cases hmem.2
      have hwithout : (cur.filter (!Op.replacesRow · (.replace message))).filter
          (·.messageId != merged.messageId) = cur.filter (!Op.replacesRow · (.replace message)) := by
        rw [List.filter_eq_self]
        simpa using hid
      rw [hwithout]
      obtain ⟨before, after, hinsert, hothers, hlater⟩ := insertProtoMessageSorted_spec hid
      refine ⟨before, merged, after, hinsert, hmerge, hothers.symm, ?_, ?_, ?_, ?_⟩
      · rw [← hothers]
        exact fun other hother => hmerge.messageId ▸ hid other hother
      · -- The entry behind it is later, and no entry of the second stands behind a later one.
        rw [hothers] at hsorted
        have hafter := (List.pairwise_append.mp hsorted).2.1
        cases after with
        | nil => exact fun _ h => nomatch h
        | cons head after =>
          have hhead := hlater head rfl
          rw [hmerge.createdAt] at hhead
          intro other hother heq
          rcases List.mem_cons.mp hother with rfl | hother
          · exact absurd heq (ne_of_gt hhead)
          · exact absurd ((List.pairwise_cons.mp hafter).1 other hother heq) (Int.not_le.mpr hhead)
      · rw [← hothers]
        exact harrived
      · rw [hparts]
        refine or_congr_right ⟨?_, ?_⟩
        · rintro ⟨old, hold, hne⟩
          rw [List.mem_filter] at hold
          exact ⟨old, hold.1, (hrow old hold.1).symm.trans hold.2, hne⟩
        · rintro ⟨old, hold, hreplaced, hne⟩
          exact ⟨old, List.mem_filter.mpr ⟨hold, (hrow old hold).trans hreplaced⟩, hne⟩

/-! ## What a step keeps -/

/-- Every row is a reply or a message that was delivered. -/
def Delivered (ops : List Op) (messages : List Message) : Prop :=
  ∀ row ∈ messages, ∃ op ∈ ops, MergeOf op.message row

/-- A later delivery changes nothing about the arrival of the rows that it does not replace. -/
private theorem arrival_concat {ops : List Op} {op : Op} {row : Message}
    (hdelivered : ∃ op ∈ ops, MergeOf op.message row)
    (hnot : (op.replaces && op.delivers row && op.deliversTurn row) = false) :
    arrival (ops ++ [op]) row = arrival ops row := by
  have hfound : ∀ p : Op → Bool, (∃ op ∈ ops, p op = true) → (ops ++ [op]).findIdx p = ops.findIdx p :=
    fun p hp => by rw [List.findIdx_append, if_pos (List.findIdx_lt_length_of_exists hp)]
  rw [arrival, arrival, List.any_append]
  simp only [List.any_cons, hnot, List.any_nil, Bool.or_false]
  split
  · next hany =>
    obtain ⟨op', hop', hreplaced⟩ := List.any_eq_true.mp hany
    rw [Bool.and_eq_true] at hreplaced
    exact hfound _ ⟨op', hop', hreplaced.2⟩
  · obtain ⟨op', hop', hmerge⟩ := hdelivered
    exact hfound _ ⟨op', hop', by rw [Op.delivers, hmerge.messageId]; simp⟩

/-- A delivery that is of another message replaces nothing of the row. -/
private theorem not_put_of_id_ne {op : Op} {row : Message} (hid : row.messageId ≠ op.message.messageId) :
    (op.replaces && op.delivers row && op.deliversTurn row) = false := by
  have hdelivers : op.delivers row = false := by
    rw [Op.delivers, beq_eq_false_iff_ne]
    exact hid.symm
  rw [hdelivers, Bool.and_false, Bool.false_and]

/-- A list with one more element. -/
private theorem pairwise_insert {α : Type} {R : α → α → Prop} {before after : List α} {a : α}
    (h : (before ++ after).Pairwise R) (hbefore : ∀ b ∈ before, R b a) (hafter : ∀ b ∈ after, R a b) :
    (before ++ a :: after).Pairwise R := by
  obtain ⟨hleft, hright, hboth⟩ := List.pairwise_append.mp h
  refine List.pairwise_append.mpr ⟨hleft, List.pairwise_cons.mpr ⟨hafter, hright⟩, fun b hb c hc => ?_⟩
  rcases List.mem_cons.mp hc with rfl | hc
  · exact hbefore b hb
  · exact hboth b hb c hc

/-- The rows after a step were delivered. -/
theorem Delivered.step {ops : List Op} {op : Op} {cur : List Message} (h : Delivered ops cur)
    (hsteady : Steady ops cur op) : Delivered (ops ++ [op]) (step merges cur op) := by
  have hold : ∀ row ∈ cur, ∃ op' ∈ ops ++ [op], MergeOf op'.message row := fun row hrow =>
    have ⟨op', hop', hmerge⟩ := h row hrow
    ⟨op', List.mem_append_left _ hop', hmerge⟩
  rcases step_cases merges hsteady with ⟨hsame, -⟩ | ⟨before, row, after, hput, put⟩
  · rw [hsame]
    exact hold
  · rw [hput]
    intro other hother
    have hcases : other = row ∨ other ∈ before ++ after := by
      simpa [or_left_comm] using hother
    rcases hcases with rfl | hother
    · exact ⟨op, List.mem_append_right _ List.mem_cons_self, put.message⟩
    · rw [put.others] at hother
      exact hold other (List.mem_of_mem_filter hother)

/-- The order of arrival after a step. -/
private theorem order_step {ops : List Op} {op : Op} {cur : List Message} (hdelivered : Delivered ops cur)
    (h : InOrderOfArrival ops cur) (hsteady : Steady ops cur op) :
    InOrderOfArrival (ops ++ [op]) (step merges cur op) := by
  rw [InOrderOfArrival, StableSort.pairwise_mergeSort_of_key] at h ⊢
  rcases step_cases merges hsteady with ⟨hsame, hreplaces⟩ | ⟨before, row, after, hput, put⟩
  · rw [hsame]
    refine h.imp_of_mem fun {a b} ha hb hab heq => ?_
    rw [arrival_concat (hdelivered a ha) (by rw [hreplaces]; rfl),
      arrival_concat (hdelivered b hb) (by rw [hreplaces]; rfl)]
    exact hab heq
  · rw [hput]
    have hothers : ∀ other ∈ before ++ after, arrival (ops ++ [op]) other = arrival ops other := by
      intro other hother
      refine arrival_concat (hdelivered other ?_) (not_put_of_id_ne (put.newId other hother))
      rw [put.others] at hother
      exact List.mem_of_mem_filter hother
    refine pairwise_insert ?_ (fun b hb heq => ?_) fun b hb heq => ?_
    · have hfilter := h.sublist (List.filter_sublist (p := fun row => !op.replacesRow row))
      rw [← put.others] at hfilter
      refine hfilter.imp_of_mem fun {a b} ha hb hab heq => ?_
      rw [hothers a ha, hothers b hb]
      exact hab heq
    · rw [put.message.arrival]
      rw [put.message.createdAt] at heq
      exact put.arrived b (List.mem_append_left after hb) heq
    · rw [put.message.createdAt] at heq
      exact absurd heq.symm (put.last b hb)

/-- The ids after a step. -/
private theorem ids_step {ops : List Op} {op : Op} {cur : List Message}
    (h : (cur.map (·.messageId)).Nodup) (hsteady : Steady ops cur op) :
    ((step merges cur op).map (·.messageId)).Nodup := by
  rcases step_cases merges hsteady with ⟨hsame, -⟩ | ⟨before, row, after, hput, put⟩
  · rwa [hsame]
  · rw [hput, List.map_append, List.map_cons, List.nodup_middle, ← List.map_append, List.nodup_cons]
    refine ⟨fun hmem => ?_, ?_⟩
    · obtain ⟨other, hother, heq⟩ := List.mem_map.mp hmem
      exact put.newId other hother (heq.trans put.message.messageId)
    · rw [put.others]
      exact h.sublist (List.filter_sublist.map _)

/-- A delivery of another turn leaves the reply of this one. -/
private theorem oneReply_other {ops : List Op} {op : Op} {cur : List Message} {turnId senderActorId : Str}
    (h : OneReply ops cur turnId senderActorId) (hother : op.message.inTurn turnId senderActorId = false)
    (hsteady : Steady ops cur op) :
    OneReply (ops ++ [op]) (step merges cur op) turnId senderActorId := by
  obtain ⟨row, hrow, hparts⟩ := h
  refine ⟨row, ?_, fun ⟨op', hop', hinTurn, hne⟩ => hparts ⟨op', ?_, hinTurn, hne⟩⟩
  · rcases step_cases merges hsteady with ⟨hsame, -⟩ | ⟨before, new, after, hput, put⟩
    · rw [hsame, hrow]
    · have hnew : new.inTurn turnId senderActorId = false := by rw [put.message.inTurn, hother]
      rw [hput, List.filter_append, List.filter_cons, hnew]
      change before.filter _ ++ after.filter _ = _
      rw [← List.filter_append, put.others, List.filter_filter, ← hrow]
      refine List.filter_congr fun other _ => ?_
      -- A reply of this turn is none of the replies that are replaced.
      cases hinTurn : other.inTurn turnId senderActorId with
      | false => rfl
      | true =>
        cases hreplaced : op.replacesRow other with
        | false => rfl
        | true =>
          simp only [Op.replacesRow, Message.inTurn, Bool.and_eq_true, beq_iff_eq] at hreplaced hinTurn
          have hkind : op.message.kind = .agentReply := by
            cases op with
            | append message => cases hreplaced.1
            | replace message =>
              have hreply := hreplaced.1
              simp only [Op.replaces, Message.isTurnReply, Bool.and_eq_true, beq_iff_eq] at hreply
              exact hreply.2
          simp [Message.inTurn, ← hinTurn.1.1, ← hinTurn.1.2, hreplaced.2.1.1, hreplaced.2.1.2,
            hkind] at hother
  · rcases List.mem_append.mp hop' with hop' | hop'
    · exact hop'
    · rw [List.mem_singleton.mp hop', hother] at hinTurn
      cases hinTurn

/-- A delivery that replaces the replies of the turn leaves one. -/
private theorem oneReply_same {ops : List Op} {op : Op} {cur : List Message} {turnId senderActorId : Str}
    (h : (∃ op ∈ ops, op.message.inTurn turnId senderActorId = true) →
      OneReply ops cur turnId senderActorId)
    (hsame : op.message.inTurn turnId senderActorId = true) (hreplaces : op.replaces = true)
    (hsteady : Steady ops cur op) :
    OneReply (ops ++ [op]) (step merges cur op) turnId senderActorId := by
  have hturn : op.message.turnId = turnId ∧ op.message.senderActorId = senderActorId := by
    simp only [Message.inTurn, Bool.and_eq_true, beq_iff_eq] at hsame
    exact hsame.1
  have hreplacesRow : ∀ row, op.replacesRow row = row.inTurn turnId senderActorId := fun row => by
    rw [Op.replacesRow, hreplaces, hturn.1, hturn.2, Bool.true_and]
  rcases step_cases merges hsteady with ⟨-, hnot⟩ | ⟨before, new, after, hput, put⟩
  · rw [hreplaces] at hnot
    cases hnot
  · refine ⟨new, ?_, ?_⟩
    · have hothers : (before ++ after).filter (·.inTurn turnId senderActorId) = [] := by
        rw [put.others, List.filter_filter, List.filter_eq_nil_iff]
        intro other _
        rw [hreplacesRow]
        cases other.inTurn turnId senderActorId <;> decide
      rw [List.filter_append, List.append_eq_nil_iff] at hothers
      rw [hput, List.filter_append, List.filter_cons, put.message.inTurn, hsame, hothers.1, hothers.2]
      rfl
    · rintro ⟨op', hop', hinTurn, hne⟩
      rw [put.parts]
      rcases List.mem_append.mp hop' with hop' | hop'
      · -- The parts came earlier: the reply in the list has them.
        obtain ⟨old, hold, hparts⟩ := h ⟨op', hop', hinTurn⟩
        have hmem : old ∈ cur.filter (·.inTurn turnId senderActorId) := hold ▸ List.mem_cons_self
        rw [List.mem_filter] at hmem
        exact .inr ⟨old, hmem.1, (hreplacesRow old).trans hmem.2, hparts ⟨op', hop', hinTurn, hne⟩⟩
      · exact .inl (List.mem_singleton.mp hop' ▸ hne)

/-- What a steady step keeps. -/
theorem Kept.step {ops : List Op} {op : Op} {cur : List Message} (hdelivered : Delivered ops cur)
    (h : Kept ops cur) (hsteady : Steady ops cur op) :
    Kept (ops ++ [op]) (MessageStore.step merges cur op) where
  ids := ids_step h.ids hsteady
  oneReply := by
    rintro turnId senderActorId hturnId hsender ⟨hsome, hall⟩
    have hbefore : (∃ op ∈ ops, op.message.inTurn turnId senderActorId = true) →
        OneReply ops cur turnId senderActorId := fun hsome => h.oneReply turnId senderActorId hturnId hsender
      ⟨hsome, fun op' hop' => hall op' (List.mem_append_left _ hop')⟩
    cases hsame : op.message.inTurn turnId senderActorId with
    | false =>
      obtain ⟨op', hop', hinTurn⟩ := hsome
      refine oneReply_other (hbefore ⟨op', ?_, hinTurn⟩) hsame hsteady
      refine (List.mem_append.mp hop').resolve_right fun hlast => ?_
      rw [List.mem_singleton.mp hlast, hsame] at hinTurn
      cases hinTurn
    | true =>
      obtain ⟨message, rfl⟩ := hall op (List.mem_append_right _ List.mem_cons_self) hsame
      refine oneReply_same hbefore hsame ?_ hsteady
      simp only [Message.inTurn, Op.message, Bool.and_eq_true, beq_iff_eq] at hsame
      simp [Op.replaces, Message.isTurnReply, hsame.1.1, hsame.1.2, hsame.2, hturnId, hsender]
  order := order_step hdelivered h.order hsteady

/-- The other entries stay as they are in a steady step. -/
theorem othersKept_step {ops : List Op} {op : Op} {cur : List Message} (hsteady : Steady ops cur op) :
    OthersKept op cur (step merges cur op) := by
  rcases step_cases merges hsteady with ⟨hsame, -⟩ | ⟨before, row, after, hput, put⟩
  · exact .inl hsame
  · exact .inr ⟨before, row, after, hput, put.message.messageId, put.others⟩

/-! ## Runs -/

/-- Every step of the run is steady. -/
def SteadyRun (merges : Merges) (ops : List Op) : Prop :=
  ∀ before op after, ops = before ++ op :: after → Steady before (run merges before) op

/-- In a run of steady steps, no two entries share an id, the replies of each turn that came through
    `replaceTurnAgentRepliesInStore` are one entry, messages of one second stand in the order of arrival, and
    no step touches another entry. -/
theorem run_kept (merges : Merges) (ops : List Op) (hsteady : SteadyRun merges ops) :
    Kept ops (run merges ops) ∧
      ∀ before op after, ops = before ++ op :: after →
        OthersKept op (run merges before) (run merges (before ++ [op])) := by
  constructor
  · have hall : Delivered ops (run merges ops) ∧ Kept ops (run merges ops) := by
      induction ops using List.reverseRecOn with
      | nil =>
        refine ⟨fun _ h => (nomatch h), List.nodup_nil, ?_, ?_⟩
        · rintro _ _ _ _ ⟨⟨op, hop, -⟩, -⟩
          cases hop
        · rw [InOrderOfArrival, StableSort.pairwise_mergeSort_of_key]
          exact List.Pairwise.nil
      | append_singleton ops op ih =>
        obtain ⟨hdelivered, hkept⟩ := ih fun before op' after heq =>
          hsteady before op' (after ++ [op]) (by rw [heq]; simp)
        have hstep := hsteady ops op [] rfl
        rw [run_concat]
        exact ⟨hdelivered.step hstep, hkept.step hdelivered hstep⟩
    exact hall.2
  · intro before op after heq
    rw [run_concat]
    exact othersKept_step (hsteady before op after heq)

/-- A run with one delivery more. -/
theorem steadyRun_concat (ops : List Op) (op : Op) :
    SteadyRun merges (ops ++ [op]) ↔ SteadyRun merges ops ∧ Steady ops (run merges ops) op := by
  constructor
  · exact fun h => ⟨fun before op' after heq => h before op' (after ++ [op]) (by rw [heq]; simp),
      h ops op [] rfl⟩
  · rintro ⟨hrun, hlast⟩ before op' after heq
    rcases List.eq_nil_or_concat after with rfl | ⟨after, last, rfl⟩
    · obtain ⟨rfl, hsingle⟩ := List.append_inj' heq rfl
      obtain rfl := (List.cons.inj hsingle).1
      exact hlast
    · have hsplit : ops ++ [op] = (before ++ op' :: after) ++ [last] := by simpa using heq
      exact hrun before op' after (List.append_inj' hsplit rfl).1

/-- Merges that take the incoming text and metadata. -/
def takeIncoming : Merges :=
  { reconcileEquivalentAgentReplyText := fun _ incoming => incoming
    mergeMetadataJson := fun _ incoming => incoming }

/-- A message of a second. -/
def textAt (messageId : Str) (createdAt : Int) : Message :=
  { messageId, turnId := [], senderActorId := ['u'], kind := .text, createdAt, content := [],
    metadataJson := [], attachmentUrls := [], partsJson := none }

/-- A reply of a second, of turn `t`. -/
def replyAt (messageId : Str) (createdAt : Int) (partsJson : Option Str) : Message :=
  { textAt messageId createdAt with
    turnId := ['t'], senderActorId := ['a'], kind := .agentReply, partsJson }

/-- Behind an entry of the same second or an earlier one. -/
private theorem insertProtoMessageSorted_single {row message : Message}
    (hid : row.messageId ≠ message.messageId) (hle : row.createdAt ≤ message.createdAt) :
    insertProtoMessageSorted [row] message = [row, message] := by
  have hlater : decide (message.createdAt < row.createdAt) = false := decide_eq_false (Int.not_lt.mpr hle)
  have hfound : searchUpperBound (fun row => message.createdAt < row.createdAt) [row] 0 1 = 1 := by
    rw [searchUpperBound]
    simp [hlater, searchUpperBound]
  simp [insertProtoMessageSorted, hid, hfound]

/-- A message and a reply that comes twice, the second time with parts. -/
theorem run_kept_reply_twice :
    let ops := [.append (textAt ['m'] 4), .replace (replyAt ['r'] 5 none),
      .replace (replyAt ['s'] 5 (some ['p']))]
    Kept ops (run takeIncoming ops) ∧ ∀ before op after, ops = before ++ op :: after →
      OthersKept op (run takeIncoming before) (run takeIncoming (before ++ [op])) := by
  refine run_kept takeIncoming [.append (textAt ['m'] 4), .replace (replyAt ['r'] 5 none),
    .replace (replyAt ['s'] 5 (some ['p']))] ?_
  have hfirst : run takeIncoming [.append (textAt ['m'] 4)] = [textAt ['m'] 4] := rfl
  have hsecond : run takeIncoming [.append (textAt ['m'] 4), .replace (replyAt ['r'] 5 none)] =
      [textAt ['m'] 4, replyAt ['r'] 5 none] :=
    @insertProtoMessageSorted_single (textAt ['m'] 4) (replyAt ['r'] 5 none) (by decide) (by decide)
  refine (steadyRun_concat [.append (textAt ['m'] 4), .replace (replyAt ['r'] 5 none)] _).mpr
    ⟨(steadyRun_concat [.append (textAt ['m'] 4)] _).mpr
      ⟨(steadyRun_concat [] _).mpr ⟨?_, ?_⟩, ?_⟩, ?_⟩
  · simp [SteadyRun]
  · exact ⟨fun h => (nomatch h), fun _ _ _ h => (nomatch h)⟩
  · rw [hfirst]
    refine ⟨fun _ => ⟨by decide, by decide, ?_, ?_⟩, fun h => (nomatch h)⟩
    · unfold ArrivedBefore
      decide
    · decide
  · rw [hsecond]
    refine ⟨fun _ => ⟨by decide, by decide, ?_, ?_⟩, fun h => (nomatch h)⟩
    · unfold ArrivedBefore
      decide
    · decide

/-- A reply that is delivered again goes behind a message of its second that came after it. -/
theorem replaced_reply_overtaken :
    ¬ ∀ (merges : Merges) (ops : List Op), Kept ops (run merges ops) := by
  intro h
  have horder := (h takeIncoming [.replace (replyAt ['r'] 5 none), .append (textAt ['m'] 5),
    .replace (replyAt ['r'] 5 none)]).order
  have hrun : run takeIncoming [.replace (replyAt ['r'] 5 none), .append (textAt ['m'] 5),
      .replace (replyAt ['r'] 5 none)] = [textAt ['m'] 5, replyAt ['r'] 5 none] :=
    @insertProtoMessageSorted_single (textAt ['m'] 5) (replyAt ['r'] 5 none) (by decide) (by decide)
  rw [hrun, InOrderOfArrival, StableSort.pairwise_mergeSort_of_key, List.pairwise_cons] at horder
  exact absurd (horder.1 _ List.mem_cons_self rfl) (by decide)

end TeamClu.MessageStore
