import Mathlib.Data.List.Forall2
import TeamClu.ForStd.Assoc
import TeamClu.Native.LateTools

/-!
# Late tool events, one at a time

A handler stores its own list of parts, the one it read with its own change in it.  So what another
handler stored in between is lost (`overlapping_tool_uses_lose_one`).  In every run in which no handler
starts a write while another one awaits its own, and in which a result comes when its tool is on the
stored reply, no event is lost (`late_events_kept`).
-/

namespace TeamClu.LateTools

/-! ## What the reply should have -/

/-- The tool ids of a list of parts, in order. -/
def toolIds (parts : List Part) : List Str := parts.filterMap Part.toolId

/-- A reply that is filed under a turn and a sender. -/
structure FiledReply (reply : Message) : Prop where
  isAgentReply : reply.isAgentReply = true
  turnId : Str.jsTrim reply.turnId ≠ []
  senderActorId : Str.jsTrim reply.senderActorId ≠ []

/-- A flushed reply with valid parts: its tools have different ids without white space around them. -/
structure FlushedReply (reply : Message) : Prop extends FiledReply reply where
  trimmed : ∀ id ∈ toolIds (reply.parts.getD []), Str.jsTrim id = id ∧ id ≠ []
  distinct : (toolIds (reply.parts.getD [])).Nodup

/-- The last result that was handled for a tool. -/
def lastResult (results : List ToolResult) (id : Str) : Option ToolResult :=
  results.reverse.find? fun result => Str.jsTrim result.toolId == id

/-- Nothing was handled for the tool: no result, and no write has added an output. -/
def Untouched (s : Session) (id : Str) : Prop :=
  (∀ result ∈ s.results, Str.jsTrim result.toolId ≠ id) ∧ ∀ output ∈ s.outputs, output.1 ≠ id

/-- What may become of a part of the reply: a tool call may get a result. -/
def Follows (s : Session) : Part → Part → Prop
  | .prose text, later => later = .prose text
  | .toolCall call, .toolCall later =>
    later.id = call.id ∧ later.details = call.details ∧ (Untouched s call.id → later = call)
  | .toolCall _, .prose _ => False

/-- The part is the call of an announced tool. -/
def Announced (s : Session) (part : Part) : Prop :=
  ∃ use ∈ s.announced, ∃ call, part = .toolCall call ∧ Part.toolId (.toolCall use.call) = part.toolId ∧
    call.details = use.details

/-- A tool call shows a result: its status is the result's, and its text the summary or an output that a
    write has added. -/
def Shows (s : Session) (call : ToolCall) (result : ToolResult) : Prop :=
  call.status = (if result.success then .completed else .failed) ∧
    (call.result = some result.summary ∨ ∃ output ∈ s.outputs,
      output.1 = call.id ∧ call.result = some output.2)

/-- The parts hold the original ones and all that was handled. -/
structure Keeps (original : List Part) (s : Session) (parts : List Part) : Prop where
  /-- The original parts are in front, in order; behind them are the tools that were announced. -/
  split : ∃ old new, parts = old ++ new ∧ List.Forall₂ (Follows s) original old ∧
    ∀ part ∈ new, Announced s part
  /-- Every tool that was on the reply or was announced has one part. -/
  distinct : (toolIds parts).Nodup
  mem_toolIds : ∀ id, id ∈ toolIds parts ↔
    id ∈ toolIds original ∨ ∃ use ∈ s.announced, Str.jsTrim use.toolId = id ∧ id ≠ []
  /-- A tool shows its last result. -/
  shown : ∀ call, .toolCall call ∈ parts → ∀ result, lastResult s.results call.id = some result →
    Shows s call result

/-- The reply in the store holds all that was handled. -/
def Kept (flushed : Str) (original : List Part) (s : Session) : Prop :=
  ∃ reply, findReply flushed s.messages = some reply ∧ Keeps original s (reply.parts.getD [])

/-- The tools on the stored reply. -/
def storedTools (flushed : Str) (s : Session) : List Str :=
  toolIds (((findReply flushed s.messages).bind (·.parts)).getD [])

/-- A step that disturbs no other: a tool that is not on the stored reply is announced when no handler
    awaits its write and no result of the tool has been handled; a result is handled when its tool is on
    the stored reply and no handler awaits its write, or it is one of no tool that was announced. -/
def Undisturbed (flushed : Str) (s : Session) : LateInput → Prop
  | .toolUse use =>
    Str.jsTrim use.toolId = [] ∨ Str.jsTrim use.toolId ∈ storedTools flushed s ∨
      s.pending.length = 0 ∧ ∀ result ∈ s.results, Str.jsTrim result.toolId ≠ Str.jsTrim use.toolId
  | .toolResult result =>
    (Str.jsTrim result.toolId ∈ storedTools flushed s → s.pending.length = 0) ∧
      (Str.jsTrim result.toolId ∉ storedTools flushed s →
        ∀ use ∈ s.announced, Str.jsTrim use.toolId ≠ Str.jsTrim result.toolId)
  | .settle _ _ => True

instance (flushed : Str) (s : Session) : ∀ input, Decidable (Undisturbed flushed s input)
  | .toolUse use => inferInstanceAs <| Decidable <|
      Str.jsTrim use.toolId = [] ∨ Str.jsTrim use.toolId ∈ storedTools flushed s ∨
        s.pending.length = 0 ∧
          ∀ result ∈ s.results, Str.jsTrim result.toolId ≠ Str.jsTrim use.toolId
  | .toolResult result => inferInstanceAs <| Decidable <|
      (Str.jsTrim result.toolId ∈ storedTools flushed s → s.pending.length = 0) ∧
        (Str.jsTrim result.toolId ∉ storedTools flushed s →
          ∀ use ∈ s.announced, Str.jsTrim use.toolId ≠ Str.jsTrim result.toolId)
  | .settle _ _ => isTrue trivial

/-! ## Parts -/

/-- A change of the parts that leaves their tools alone leaves the tool ids alone. -/
private theorem toolIds_map {f : Part → Part} (hf : ∀ part, (f part).toolId = part.toolId)
    (parts : List Part) : toolIds (parts.map f) = toolIds parts := by
  unfold toolIds
  rw [List.filterMap_map]
  exact congrArg (List.filterMap · parts) (funext hf)

@[simp] private theorem toolIds_append (parts parts' : List Part) :
    toolIds (parts ++ parts') = toolIds parts ++ toolIds parts' := List.filterMap_append ..

@[simp] private theorem toolIds_call (call : ToolCall) : toolIds [.toolCall call] = [call.id] := rfl

private theorem mem_toolIds_of_mem {call : ToolCall} {parts : List Part}
    (h : .toolCall call ∈ parts) : call.id ∈ toolIds parts :=
  List.mem_filterMap.mpr ⟨_, h, rfl⟩

/-- A tool's part is there exactly when its id is. -/
private theorem any_toolId {id : Str} {parts : List Part} :
    parts.any (·.toolId == some id) = true ↔ id ∈ toolIds parts := by
  simp [toolIds]

private theorem applyPart_toolId (result : ToolResult) (part : Part) :
    (result.applyPart part).toolId = part.toolId := by
  cases part with
  | prose text => rfl
  | toolCall call =>
    simp only [ToolResult.applyPart]
    split <;> rfl

private theorem addOutput_toolId (outputs : List (Str × Str)) (part : Part) :
    (addOutput outputs part).toolId = part.toolId := by
  cases part with
  | prose text => rfl
  | toolCall call =>
    simp only [addOutput]
    split <;> rfl

/-! ## What the handlers do to the parts -/

variable {original parts : List Part} {s s' : Session}

private theorem Follows.mono (hs : ∀ id, Untouched s' id → Untouched s id) {part later : Part}
    (h : Follows s part later) : Follows s' part later := by
  cases part with
  | prose text => exact h
  | toolCall call =>
    cases later with
    | prose text => exact h
    | toolCall later => exact ⟨h.1, h.2.1, fun hu => h.2.2 (hs _ hu)⟩

private theorem Announced.mono (hs : s.announced ⊆ s'.announced) {part : Part}
    (h : Announced s part) : Announced s' part := by
  obtain ⟨use, huse, hcall⟩ := h
  exact ⟨use, hs huse, hcall⟩

/-- The tools of the parts have ids when those of the original parts have. -/
private theorem Keeps.ne_nil (h : Keeps original s parts) (hids : ∀ id ∈ toolIds original, id ≠ [])
    {id : Str} (hid : id ∈ toolIds parts) : id ≠ [] := by
  rcases (h.mem_toolIds id).mp hid with hid | ⟨use, -, -, hne⟩
  · exact hids id hid
  · exact hne

/-- An announcement that starts no write: the tool is on the reply, or has no id. -/
private theorem Keeps.announce {use : ToolUse} (h : Keeps original s parts)
    (ha : s'.announced = s.announced ++ [use]) (hr : s'.results = s.results)
    (ho : s'.outputs = s.outputs)
    (huse : Str.jsTrim use.toolId = [] ∨ Str.jsTrim use.toolId ∈ toolIds parts) :
    Keeps original s' parts where
  split := by
    obtain ⟨old, new, hsplit, hold, hnew⟩ := h.split
    have huntouched : ∀ id, Untouched s' id → Untouched s id := fun id hu => by
      simpa only [Untouched, hr, ho] using hu
    have hannounced : s.announced ⊆ s'.announced := by simp [ha]
    exact ⟨old, new, hsplit, hold.imp fun _ _ hf => hf.mono huntouched,
      fun part hp => (hnew part hp).mono hannounced⟩
  distinct := h.distinct
  mem_toolIds id := by
    rw [h.mem_toolIds, ha]
    constructor
    · rintro (hid | ⟨u, hu, hid⟩)
      · exact .inl hid
      · exact .inr ⟨u, List.mem_append_left _ hu, hid⟩
    · rintro (hid | ⟨u, hu, hid, hne⟩)
      · exact .inl hid
      · rcases List.mem_append.mp hu with hu | hu
        · exact .inr ⟨u, hu, hid, hne⟩
        · rw [List.mem_singleton.mp hu] at hid
          rcases huse with hblank | hmem
          · exact absurd (hid.symm.trans hblank) hne
          · exact (h.mem_toolIds id).mp (hid ▸ hmem)
  shown call hc result hl := by
    rw [hr] at hl
    simpa only [Shows, ho] using h.shown call hc result hl

/-- An announcement whose tool is put behind the parts. -/
private theorem Keeps.append {use : ToolUse} (h : Keeps original s parts)
    (ha : s'.announced = s.announced ++ [use]) (hr : s'.results = s.results)
    (ho : s'.outputs = s.outputs) (hne : Str.jsTrim use.toolId ≠ [])
    (hnew : Str.jsTrim use.toolId ∉ toolIds parts)
    (hres : ∀ result ∈ s.results, Str.jsTrim result.toolId ≠ Str.jsTrim use.toolId) :
    Keeps original s' (parts ++ [.toolCall use.call]) where
  split := by
    obtain ⟨old, new, hsplit, hold, hnews⟩ := h.split
    have huntouched : ∀ id, Untouched s' id → Untouched s id := fun id hu => by
      simpa only [Untouched, hr, ho] using hu
    have hannounced : s.announced ⊆ s'.announced := by simp [ha]
    refine ⟨old, new ++ [.toolCall use.call], by rw [hsplit, List.append_assoc],
      hold.imp fun _ _ hf => hf.mono huntouched, fun part hp => ?_⟩
    rcases List.mem_append.mp hp with hp | hp
    · exact (hnews part hp).mono hannounced
    · rw [List.mem_singleton.mp hp]
      exact ⟨use, by simp [ha], use.call, rfl, rfl, rfl⟩
  distinct := by
    rw [toolIds_append, toolIds_call, List.nodup_append]
    refine ⟨h.distinct, by simp, fun id hid id' hid' heq => hnew ?_⟩
    have heq : id = Str.jsTrim use.toolId := heq.trans (List.mem_singleton.mp hid')
    exact heq ▸ hid
  mem_toolIds id := by
    rw [toolIds_append, toolIds_call, List.mem_append, h.mem_toolIds, ha]
    constructor
    · rintro ((hid | ⟨u, hu, hid⟩) | hid)
      · exact .inl hid
      · exact .inr ⟨u, List.mem_append_left _ hu, hid⟩
      · have hid : id = Str.jsTrim use.toolId := List.mem_singleton.mp hid
        exact .inr ⟨use, by simp, hid.symm, hid ▸ hne⟩
    · rintro (hid | ⟨u, hu, hid, hne⟩)
      · exact .inl (.inl hid)
      · rcases List.mem_append.mp hu with hu | hu
        · exact .inl (.inr ⟨u, hu, hid, hne⟩)
        · rw [List.mem_singleton.mp hu] at hid
          exact .inr (List.mem_singleton.mpr hid.symm)
  shown call hc result hl := by
    rw [hr] at hl
    rcases List.mem_append.mp hc with hc | hc
    · simpa only [Shows, ho] using h.shown call hc result hl
    · -- The tool is new, and no result came for it.
      have hcall : call = use.call := by simpa using hc
      obtain ⟨hp, hmem⟩ := And.intro (List.find?_some hl) (List.mem_of_find?_eq_some hl)
      rw [hcall, beq_iff_eq] at hp
      exact absurd hp (hres result (List.mem_reverse.mp hmem))

/-- A result of a tool that is not on the reply. -/
private theorem Keeps.ignore {result : ToolResult} (h : Keeps original s parts)
    (ha : s'.announced = s.announced) (hr : s'.results = s.results ++ [result])
    (ho : s'.outputs = s.outputs) (hnot : Str.jsTrim result.toolId ∉ toolIds parts) :
    Keeps original s' parts where
  split := by
    obtain ⟨old, new, hsplit, hold, hnew⟩ := h.split
    have huntouched : ∀ id, Untouched s' id → Untouched s id := fun id hu =>
      ⟨fun r hmem => hu.1 r (hr ▸ List.mem_append_left _ hmem), ho ▸ hu.2⟩
    exact ⟨old, new, hsplit, hold.imp fun _ _ hf => hf.mono huntouched,
      fun part hp => (hnew part hp).mono (by simp [ha])⟩
  distinct := h.distinct
  mem_toolIds id := by rw [h.mem_toolIds, ha]
  shown call hc r hl := by
    have hid : Str.jsTrim result.toolId ≠ call.id := fun heq =>
      hnot (heq ▸ mem_toolIds_of_mem hc)
    rw [lastResult, hr, List.reverse_append, List.reverse_singleton, List.singleton_append,
      List.find?_cons_of_neg (by simpa using hid)] at hl
    simpa only [Shows, ho] using h.shown call hc r hl

/-- A result of a tool that is on the reply. -/
private theorem Keeps.result {result : ToolResult} (h : Keeps original s parts)
    (ha : s'.announced = s.announced) (hr : s'.results = s.results ++ [result])
    (ho : s'.outputs = s.outputs) : Keeps original s' (parts.map result.applyPart) where
  split := by
    obtain ⟨old, new, hsplit, hold, hnew⟩ := h.split
    have huntouched : ∀ id, Untouched s' id → Untouched s id := fun id hu =>
      ⟨fun r hmem => hu.1 r (hr ▸ List.mem_append_left _ hmem), ho ▸ hu.2⟩
    refine ⟨old.map result.applyPart, new.map result.applyPart, by rw [hsplit, List.map_append],
      List.forall₂_map_right_iff.mpr (hold.imp fun p q hf => ?_), fun part hp => ?_⟩
    · have hf := hf.mono huntouched
      cases q with
      | prose text => exact hf
      | toolCall later =>
        simp only [ToolResult.applyPart]
        split
        · rename_i hid
          cases p with
          | prose text => cases hf
          | toolCall call =>
            obtain ⟨hcall, hdet, -⟩ := hf
            refine ⟨hcall, hdet, fun hu => absurd (hid.symm.trans hcall) (hu.1 result ?_)⟩
            simp [hr]
        · exact hf
    · obtain ⟨q, hq, rfl⟩ := List.mem_map.mp hp
      obtain ⟨use, huse, call, rfl, hid, hdet⟩ := hnew q hq
      refine ⟨use, ha ▸ huse, ?_⟩
      simp only [ToolResult.applyPart]
      split
      · exact ⟨_, rfl, hid, hdet⟩
      · exact ⟨_, rfl, hid, hdet⟩
  distinct := by
    rw [toolIds_map (applyPart_toolId result)]
    exact h.distinct
  mem_toolIds id := by rw [toolIds_map (applyPart_toolId result), h.mem_toolIds, ha]
  shown call hc r hl := by
    obtain ⟨q, hq, hcall⟩ := List.mem_map.mp hc
    cases q with
    | prose text => cases hcall
    | toolCall before =>
      simp only [ToolResult.applyPart] at hcall
      split at hcall
      · -- The tool of the result shows it; it is the last one.
        rename_i hid
        obtain rfl : result.apply before = call := Part.toolCall.inj hcall
        rw [lastResult, hr, List.reverse_append, List.reverse_singleton, List.singleton_append,
          List.find?_cons_of_pos (by simpa [ToolResult.apply] using hid.symm)] at hl
        obtain rfl : result = r := Option.some.inj hl
        exact ⟨rfl, .inl rfl⟩
      · rename_i hid
        obtain rfl : before = call := Part.toolCall.inj hcall
        rw [lastResult, hr, List.reverse_append, List.reverse_singleton, List.singleton_append,
          List.find?_cons_of_neg (by simpa using fun heq => hid heq.symm)] at hl
        simpa only [Shows, ho] using h.shown before hq r hl

/-- A write that has added outputs. -/
private theorem Keeps.output {outputs : List (Str × Str)} (h : Keeps original s parts)
    (ha : s'.announced = s.announced) (hr : s'.results = s.results)
    (ho : s'.outputs = s.outputs ++ outputs) :
    Keeps original s' (parts.map (addOutput outputs)) where
  split := by
    obtain ⟨old, new, hsplit, hold, hnew⟩ := h.split
    -- an output that is added touches its own tool only
    have huntouched : ∀ id, Untouched s' id → Untouched s id := fun id hu =>
      ⟨hr ▸ hu.1, fun o hmem => hu.2 o (ho ▸ List.mem_append_left _ hmem)⟩
    refine ⟨old.map (addOutput outputs), new.map (addOutput outputs),
      by rw [hsplit, List.map_append],
      List.forall₂_map_right_iff.mpr (hold.imp fun p q hf => ?_), fun part hp => ?_⟩
    · have hf := hf.mono huntouched
      cases q with
      | prose text => exact hf
      | toolCall later =>
        simp only [addOutput]
        split
        · rename_i output hout
          cases p with
          | prose text => cases hf
          | toolCall call =>
            obtain ⟨hcall, hdet, -⟩ := hf
            refine ⟨hcall, hdet, fun hu => absurd hcall (hu.2 (later.id, output) ?_)⟩
            exact ho ▸ List.mem_append_right _ (Assoc.mem_of_lookup hout)
        · exact hf
    · obtain ⟨q, hq, rfl⟩ := List.mem_map.mp hp
      obtain ⟨use, huse, call, rfl, hid, hdet⟩ := hnew q hq
      refine ⟨use, ha ▸ huse, ?_⟩
      simp only [addOutput]
      split
      · exact ⟨_, rfl, hid, hdet⟩
      · exact ⟨_, rfl, hid, hdet⟩
  distinct := by
    rw [toolIds_map (addOutput_toolId outputs)]
    exact h.distinct
  mem_toolIds id := by rw [toolIds_map (addOutput_toolId outputs), h.mem_toolIds, ha]
  shown call hc r hl := by
    rw [hr] at hl
    obtain ⟨q, hq, hcall⟩ := List.mem_map.mp hc
    cases q with
    | prose text => cases hcall
    | toolCall before =>
      simp only [addOutput] at hcall
      split at hcall
      · rename_i output hout
        obtain rfl : { before with result := some output } = call := Part.toolCall.inj hcall
        refine ⟨(h.shown before hq r hl).1, .inr ⟨(before.id, output), ?_, rfl, rfl⟩⟩
        exact ho ▸ List.mem_append_right _ (Assoc.mem_of_lookup hout)
      · obtain rfl : before = call := Part.toolCall.inj hcall
        obtain ⟨hstatus, hresult⟩ := h.shown before hq r hl
        refine ⟨hstatus, hresult.imp_right fun ⟨o, hmem, hshow⟩ => ⟨o, ?_, hshow⟩⟩
        exact ho ▸ List.mem_append_left _ hmem

/-! ## What the store does to the reply -/

/-- The message that is inserted is the one with its id. -/
private theorem findReply_insert (rest : List Message) (merged : Message) :
    findReply merged.messageId (insertProtoMessageSorted
      (rest.filter (·.messageId != merged.messageId)) merged) = some merged := by
  have hnone : ∀ m ∈ rest.filter (·.messageId != merged.messageId),
      m.messageId ≠ merged.messageId := fun m hm => by simpa using (List.mem_filter.mp hm).2
  generalize rest.filter (·.messageId != merged.messageId) = others at hnone
  rw [insertProtoMessageSorted, if_neg (by simpa using hnone), findReply, List.find?_append,
    List.find?_eq_none.mpr fun m hm => by simpa using hnone m ((List.take_sublist _ _).mem hm)]
  simp

/-- The store keeps a message under its id, with its parts. -/
private theorem findReply_replace (merges : Merges) (messages : List Message) {updated : Message}
    (hf : FiledReply updated) (hparts : updated.parts.isSome) :
    ∃ stored, findReply updated.messageId
        (replaceTurnAgentRepliesInStore merges messages updated) = some stored ∧
      FiledReply stored ∧ stored.parts = updated.parts := by
  rw [replaceTurnAgentRepliesInStore]
  simp only
  rw [if_neg (by simp [hf.isAgentReply, hf.turnId, hf.senderActorId])]
  generalize (((messages.filter (·.inTurn (Str.jsTrim updated.turnId)
    (Str.jsTrim updated.senderActorId))).find? (·.parts.isSome)).or
      (messages.filter (·.inTurn (Str.jsTrim updated.turnId)
        (Str.jsTrim updated.senderActorId))).getLast?) = prior
  cases prior with
  | none => exact ⟨_, findReply_insert _ _, hf, rfl⟩
  | some prior =>
    simp only
    refine ⟨_, findReply_insert _ (mergeTurnAgentReplyProto merges prior updated),
      ⟨hf.isAgentReply, hf.turnId, hf.senderActorId⟩, ?_⟩
    obtain ⟨parts, hsome⟩ := Option.isSome_iff_exists.mp hparts
    simp [mergeTurnAgentReplyProto, hsome]

/-! ## Runs -/

/-- The reply in the store, and the one handler that may await its write. -/
structure LateInv (flushed : Str) (original : List Part) (s : Session) : Prop where
  stored : ∃ reply, findReply flushed s.messages = some reply ∧ FiledReply reply ∧
    toolIds original ⊆ toolIds (reply.parts.getD []) ∧
    (s.pending = [] ∧ Keeps original s (reply.parts.getD []) ∨
      ∃ handler, s.pending = [handler] ∧ handler.message = reply ∧
        toolIds (reply.parts.getD []) ⊆ toolIds handler.parts ∧ Keeps original s handler.parts)

variable {flushed : Str}

private theorem LateInv.toolUse {use : ToolUse} (h : LateInv flushed original s)
    (hu : Undisturbed flushed s (.toolUse use)) :
    LateInv flushed original (startToolUse flushed s use) := by
  obtain ⟨reply, hfind, hfiled, horiginal, hhandlers⟩ := h.stored
  have hstored : storedTools flushed s = toolIds (reply.parts.getD []) := by
    simp [storedTools, hfind]
  rw [Undisturbed, hstored] at hu
  rw [startToolUse]
  simp only [hfind]
  split
  · -- Without an id nothing starts.
    rename_i hblank
    refine ⟨reply, hfind, hfiled, horiginal, ?_⟩
    rcases hhandlers with ⟨hnone, hkeeps⟩ | ⟨handler, hone, hmessage, hsub, hkeeps⟩
    · exact .inl ⟨hnone, hkeeps.announce rfl rfl rfl (.inl hblank)⟩
    · exact .inr ⟨handler, hone, hmessage, hsub, hkeeps.announce rfl rfl rfl (.inl hblank)⟩
  · rename_i hne
    split
    · -- The tool is on the stored reply, so in every handler's parts.
      rename_i hany
      have hmem := any_toolId.mp hany
      refine ⟨reply, hfind, hfiled, horiginal, ?_⟩
      rcases hhandlers with ⟨hnone, hkeeps⟩ | ⟨handler, hone, hmessage, hsub, hkeeps⟩
      · exact .inl ⟨hnone, hkeeps.announce rfl rfl rfl (.inr hmem)⟩
      · exact .inr ⟨handler, hone, hmessage, hsub, hkeeps.announce rfl rfl rfl (.inr (hsub hmem))⟩
    · rename_i hany
      have hnot : Str.jsTrim use.toolId ∉ toolIds (reply.parts.getD []) := mt any_toolId.mpr hany
      obtain ⟨hlen, hres⟩ := (hu.resolve_left hne).resolve_left hnot
      have hnone : s.pending = [] := List.eq_nil_of_length_eq_zero hlen
      have hkeeps : Keeps original s (reply.parts.getD []) := by
        rcases hhandlers with ⟨-, hkeeps⟩ | ⟨handler, hone, -⟩
        · exact hkeeps
        · exact absurd (hnone.symm.trans hone) (by simp)
      refine ⟨reply, hfind, hfiled, horiginal, .inr
        ⟨{ message := reply, parts := reply.parts.getD [] ++ [.toolCall use.call] },
          by rw [hnone, List.nil_append], rfl, ?_, hkeeps.append rfl rfl rfl hne hnot hres⟩⟩
      simp

private theorem LateInv.toolResult {result : ToolResult} (h : LateInv flushed original s)
    (hu : Undisturbed flushed s (.toolResult result)) (hids : ∀ id ∈ toolIds original, id ≠ []) :
    LateInv flushed original (startToolResult flushed s result) := by
  obtain ⟨reply, hfind, hfiled, horiginal, hhandlers⟩ := h.stored
  have hstored : storedTools flushed s = toolIds (reply.parts.getD []) := by
    simp [storedTools, hfind]
  rw [Undisturbed, hstored] at hu
  rw [startToolResult]
  simp only [hfind]
  by_cases hmem : Str.jsTrim result.toolId ∈ toolIds (reply.parts.getD [])
  · -- The handler starts, and it is alone.
    replace hu := hu.1 hmem
    have hnone : s.pending = [] := List.eq_nil_of_length_eq_zero hu
    have hkeeps : Keeps original s (reply.parts.getD []) := by
      rcases hhandlers with ⟨-, hkeeps⟩ | ⟨handler, hone, -⟩
      · exact hkeeps
      · exact absurd (hnone.symm.trans hone) (by simp)
    have hne : Str.jsTrim result.toolId ≠ [] := hkeeps.ne_nil hids hmem
    have hparts : reply.parts.getD [] ≠ [] := fun hnil => by
      rw [hnil] at hmem
      cases hmem
    rw [if_neg hparts, withPatchedToolResult, if_neg hne, if_pos (any_toolId.mpr hmem)]
    refine ⟨reply, hfind, hfiled, horiginal, .inr
      ⟨{ message := reply, parts := (reply.parts.getD []).map result.applyPart },
        by simp only [hnone, List.nil_append], rfl, ?_, hkeeps.result rfl rfl rfl⟩⟩
    rw [toolIds_map (applyPart_toolId result)]
    exact List.Subset.refl _
  · -- Nothing starts, and no part waits for the result.
    replace hu := hu.2 hmem
    have hpatch : withPatchedToolResult (reply.parts.getD []) result = none := by
      rw [withPatchedToolResult]
      split
      · rfl
      · exact if_neg (mt any_toolId.mp hmem)
    have hnot : ∀ {parts}, Keeps original s parts → Str.jsTrim result.toolId ∉ toolIds parts := by
      intro parts hkeeps hin
      rcases (hkeeps.mem_toolIds _).mp hin with hin | ⟨use, huse, heq, -⟩
      · exact hmem (horiginal hin)
      · exact hu use huse heq
    rw [hpatch, ite_self]
    refine ⟨reply, hfind, hfiled, horiginal, ?_⟩
    rcases hhandlers with ⟨hnone, hkeeps⟩ | ⟨handler, hone, hmessage, hsub, hkeeps⟩
    · exact .inl ⟨hnone, hkeeps.ignore rfl rfl rfl (hnot hkeeps)⟩
    · exact .inr ⟨handler, hone, hmessage, hsub, hkeeps.ignore rfl rfl rfl (hnot hkeeps)⟩

private theorem LateInv.settle (merges : Merges) {i : Nat} {written : Option (List (Str × Str))}
    (h : LateInv flushed original s) :
    LateInv flushed original (lateStep merges flushed s (.settle i written)) := by
  obtain ⟨reply, hfind, hfiled, horiginal, hhandlers⟩ := h.stored
  rw [lateStep]
  split
  · exact h
  · rename_i handler hget
    rcases hhandlers with ⟨hnone, -⟩ | ⟨handler', hone, hmessage, hsub, hkeeps⟩
    · rw [hnone] at hget
      cases hget
    · obtain ⟨rfl, rfl⟩ : i = 0 ∧ handler' = handler := by
        rw [hone] at hget
        cases i with
        | zero => exact ⟨rfl, Option.some.inj hget⟩
        | succ i => cases hget
      subst hmessage
      have hid : handler'.message.messageId = flushed := by
        simpa using List.find?_some hfind
      let updated : Message :=
        { handler'.message with parts := some (handler'.parts.map (addOutput (written.getD []))) }
      have hupdated : FiledReply updated :=
        ⟨hfiled.isAgentReply, hfiled.turnId, hfiled.senderActorId⟩
      obtain ⟨stored, hstored, hfiled', hparts⟩ :=
        findReply_replace merges s.messages hupdated rfl
      refine ⟨stored, hid ▸ hstored, hfiled', ?_, .inl ⟨by rw [hone]; rfl, ?_⟩⟩
      · rw [hparts, Option.getD_some, toolIds_map (addOutput_toolId _)]
        exact fun id hmem => (hkeeps.mem_toolIds id).mpr (.inl hmem)
      · rw [hparts]
        exact hkeeps.output rfl rfl rfl

private theorem LateInv.step (merges : Merges) {input : LateInput} (h : LateInv flushed original s)
    (hids : ∀ id ∈ toolIds original, id ≠ []) (hu : Undisturbed flushed s input) :
    LateInv flushed original (lateStep merges flushed s input) := by
  cases input with
  | toolUse use => exact h.toolUse hu
  | toolResult result => exact h.toolResult hu hids
  | settle i written => exact h.settle merges

/-- The reply as it was flushed holds all that was handled: nothing was. -/
private theorem LateInv.init (merges : Merges) {messages : List Message} {reply : Message}
    (hfind : findReply flushed messages = some reply) (hf : FlushedReply reply) :
    LateInv flushed (reply.parts.getD []) (lateMachine merges flushed messages).init where
  stored := by
    refine ⟨reply, hfind, hf.toFiledReply, List.Subset.refl _, .inl ⟨rfl, ?_⟩⟩
    refine ⟨⟨reply.parts.getD [], [], (List.append_nil _).symm, ?_, fun _ hp => (by cases hp)⟩,
      hf.distinct, fun id => ⟨.inl, fun h => h.resolve_right ?_⟩, fun call _ result hl => by cases hl⟩
    · refine List.forall₂_same.mpr fun part _ => ?_
      cases part with
      | prose text => exact rfl
      | toolCall call => exact ⟨rfl, rfl, fun _ => rfl⟩
    · rintro ⟨use, huse, -⟩
      cases huse

/-- In a run whose steps disturb no other, the stored reply holds all that was handled once every handler
    has finished. -/
theorem late_events_kept (merges : Merges) {messages : List Message} {reply : Message}
    (hfind : findReply flushed messages = some reply) (hf : FlushedReply reply)
    {inputs : List LateInput}
    (hsteps : (lateMachine merges flushed messages).Steps (Undisturbed flushed)
      (lateMachine merges flushed messages).init inputs)
    (hdone : ((lateMachine merges flushed messages).run inputs).pending = []) :
    Kept flushed (reply.parts.getD []) ((lateMachine merges flushed messages).run inputs) := by
  have hids : ∀ id ∈ toolIds (reply.parts.getD []), id ≠ [] := fun id hid => (hf.trimmed id hid).2
  have hstep : ∀ s input, LateInv flushed (reply.parts.getD []) s → Undisturbed flushed s input →
      LateInv flushed (reply.parts.getD []) ((lateMachine merges flushed messages).step s input) :=
    fun _ _ hinv hu => hinv.step merges hids hu
  have hinv := Machine.invariant_runFrom hstep (LateInv.init merges hfind hf) hsteps
  obtain ⟨stored, hstored, -, -, hhandlers⟩ := hinv.stored
  refine ⟨stored, hstored, ?_⟩
  rcases hhandlers with ⟨-, hkeeps⟩ | ⟨handler, hone, -⟩
  · exact hkeeps
  · exact absurd (hdone.symm.trans hone) (by simp)

/-! ## A run -/

/-- Merges that keep what comes in, for the runs below. -/
def keepIncoming : Merges := ⟨fun _ incoming => incoming, fun _ incoming => incoming⟩

/-- A flushed reply with a text and the call of one tool. -/
def readReply : Message where
  messageId := "m1".toList
  turnId := "turn".toList
  senderActorId := "agent".toList
  isAgentReply := true
  createdAt := 1
  content := "Done.".toList
  metadataJson := []
  attachmentUrls := []
  parts := some [.prose "Done.".toList,
    .toolCall { id := "t1".toList, details := "read".toList, status := .calling }]

/-- A tool is announced and written, and then both tools get their results. -/
def lateRun : List LateInput :=
  [.toolUse ⟨" t2".toList, "grep".toList, none⟩, .settle 0 (some []),
    .toolResult ⟨"t2".toList, true, "3 lines".toList, none, none⟩, .settle 0 none,
    .toolResult ⟨"t1".toList, false, "no file".toList, none, none⟩, .settle 0 (some [])]

/-- Two tools are announced, and the second handler reads the reply before the first one's write is
    back. -/
def overlappingRun : List LateInput :=
  [.toolUse ⟨"t2".toList, "grep".toList, none⟩, .toolUse ⟨"t3".toList, "ls".toList, none⟩,
    .settle 0 (some []), .settle 0 (some [])]

private theorem readReply_flushed : FlushedReply readReply where
  isAgentReply := rfl
  turnId := by decide
  senderActorId := by decide
  trimmed := by decide
  distinct := by decide

theorem late_events_kept_lateRun :
    Kept readReply.messageId (readReply.parts.getD [])
      ((lateMachine keepIncoming readReply.messageId [readReply]).run lateRun) :=
  late_events_kept keepIncoming (by decide) readReply_flushed (by decide +kernel)
    (List.eq_nil_of_length_eq_zero (by decide +kernel))

/-- Late events may be lost: of two tools that are announced at the same time, one has no part. -/
theorem overlapping_tool_uses_lose_one :
    ¬ ∀ (merges : Merges) (flushed : Str) (messages : List Message) (reply : Message)
        (inputs : List LateInput), findReply flushed messages = some reply → FlushedReply reply →
      ((lateMachine merges flushed messages).run inputs).pending = [] →
      Kept flushed (reply.parts.getD []) ((lateMachine merges flushed messages).run inputs) := by
  intro hkept
  have hdone : ((lateMachine keepIncoming readReply.messageId [readReply]).run
      overlappingRun).pending = [] := List.eq_nil_of_length_eq_zero (by decide +kernel)
  obtain ⟨stored, hstored, hkeeps⟩ := hkept keepIncoming readReply.messageId [readReply] readReply
    overlappingRun (by decide) readReply_flushed hdone
  -- The second write took away what the first one stored.
  have hlost : "t2".toList ∉ storedTools readReply.messageId
      ((lateMachine keepIncoming readReply.messageId [readReply]).run overlappingRun) := by
    decide +kernel
  rw [storedTools, hstored] at hlost
  exact hlost ((hkeeps.mem_toolIds _).mpr (.inr ⟨⟨"t2".toList, "grep".toList, none⟩,
    List.mem_cons_self, by decide, by decide⟩))

end TeamClu.LateTools
