import Mathlib.Data.List.Nodup
import TeamClu.Native.StreamStore

/-!
# The live transcript shows what was streamed

The parts of a live entry, read in order, are the deltas and the tools in the order in which they came,
as long as the stripping of prior text leaves the deltas alone (`transcript_faithful`).  It takes away a
delta of white space after a tool, although the flat text keeps it (`blank_delta_lost`).

The invariant is one for each actor: what arrived is what its live entry shows, followed by what is
buffered (`ActorInv`).
-/

namespace TeamClu.StreamStore

/-! ## Reading a transcript -/

/-- What a transcript shows: characters of text and of reasoning, and tools. -/
inductive Token where
  | text (c : Char)
  | reasoning (c : Char)
  | tool (id : Str)
  deriving DecidableEq

/-- What a part shows. -/
def MessagePart.tokens : MessagePart → List Token
  | .text body => body.map .text
  | .reasoning body => body.map .reasoning
  | .toolCall id _ => [.tool id]
  | .other _ => []

/-- What should be shown for an arrival. -/
def Arrival.tokens : Arrival → List Token
  | .delta .output text => text.map .text
  | .delta .thinking text => text.map .reasoning
  | .tool id => [.tool id]
  | .result id isNew => if isNew then [.tool id] else []

/-- The text of a text part. -/
def MessagePart.textOf : MessagePart → Option Str
  | .text body => some body
  | _ => none

/-- The text of a reasoning part. -/
def MessagePart.reasoningOf : MessagePart → Option Str
  | .reasoning body => some body
  | _ => none

/-- The tool call of a part. -/
def MessagePart.toolOf : MessagePart → Option ToolCall
  | .toolCall _ call => some call
  | _ => none

/-- The text of a delta of a kind. -/
def Arrival.deltaOf (kind : StreamDeltaKind) : Arrival → Option Str
  | .delta k text => if k = kind then some text else none
  | _ => none

/-- The tool call is not in flight. -/
def ToolCall.Settled (toolCall : ToolCall) : Prop :=
  toolCall.status = .completed ∨ toolCall.status = .failed

/-- The entry shows what arrived. -/
structure Shows (entry : Entry) (arrivals : List Arrival) : Prop where
  /-- The parts stand in the order of arrival. -/
  reads : entry.parts.flatMap (·.tokens) = arrivals.flatMap (·.tokens)
  output : entry.outputText = (arrivals.filterMap (·.deltaOf .output)).flatten
  thinking : entry.thinkingText = (arrivals.filterMap (·.deltaOf .thinking)).flatten
  /-- The tool parts and the tool calls are the same, each once. -/
  tools : entry.parts.filterMap (·.toolOf) = entry.toolCalls
  partIds : ∀ id toolCall, .toolCall id toolCall ∈ entry.parts → id = toolCall.id ∧ id ≠ []
  distinct : (entry.toolCalls.map (·.id)).Nodup
  /-- A tool with a result is not in flight. -/
  settled : ∀ id isNew, .result id isNew ∈ arrivals →
    ∃ toolCall ∈ entry.toolCalls, toolCall.id = id ∧ toolCall.Settled

/-- The entry is faithful to what arrived: it shows it, and the two representations of a text agree. -/
structure Faithful (entry : Entry) (arrivals : List Arrival) : Prop extends Shows entry arrivals where
  texts : (entry.parts.filterMap (·.textOf)).flatten = entry.outputText
  reasonings : (entry.parts.filterMap (·.reasoningOf)).flatten = entry.thinkingText

/-! ## The condition of a run -/

/-- The live entry of an actor: the one that the next operation goes on with. -/
def liveEntry (s : State) (actor : Actor) : Entry := (prepareMutation s actor).1

/-- What has arrived for an actor. -/
def arrivalsOf (s : State) (actor : Actor) : List Arrival :=
  (s.arrived.filter (·.1 == actor)).map (·.2)

/-- The buffered deltas of an actor. -/
def bufferedOf (s : State) (actor : Actor) : List (StreamDeltaKind × Str) :=
  (s.pending.lookup (keyOf actor)).getD []

/-- Ids from which the key can be read back: no separator, and no colon at the end of the session. -/
def PlainActor (actor : Actor) : Prop :=
  ¬ "::".toList <:+: actor.1 ∧ actor.1.getLast? ≠ some ':'

/-- The stripping leaves the output deltas alone. -/
def Unstripped (parts : List MessagePart) (deltas : List (StreamDeltaKind × Str)) : Prop :=
  ∀ delta ∈ deltas, delta.1 = .output → stripPriorTranscriptTextPrefix parts delta.2 = delta.2

/-- The parts of the live entry under a key. -/
def liveParts (s : State) (key : Str) : List MessagePart :=
  match s.byKey key with
  | some entry => if entry.active then entry.parts else []
  | none => []

/-- What arrives with a direct change, if it is shown, comes when no delta of the actor is buffered. -/
def Flushed (s : State) (actor : Actor) (input : StreamInput) : Prop :=
  ∀ arrival ∈ input.arrival s, arrival.2.tokens ≠ [] → bufferedOf s actor = []

/-- One of the actors is read back from the key. -/
def ReadsBack (actors : Actor → Prop) (key : Str) : Prop :=
  match Str.splitOnce "::".toList key with
  | some actor => actors actor
  | none => False

/-- A step that the transcripts of the actors follow: a direct change of an entry comes after a flush of its
    deltas, a flush of all reads the actor of each buffer back, and the stripping leaves every output delta
    alone when it is applied. -/
def Followed (actors : Actor → Prop) (s : State) (input : StreamInput) : Prop :=
  match input with
  | .buffer _ actor _ | .setPermissionRequest actor _ _ | .setPlan actor _ => actors actor
  | .flushFor actor => actors actor ∧ Unstripped (liveParts s (keyOf actor)) (bufferedOf s actor)
  | .flushAll => ∀ buffer ∈ s.pending, ReadsBack actors buffer.1 ∧ Unstripped (liveParts s buffer.1) buffer.2
  | .appendOutput actor delta => actors actor ∧ Flushed s actor input ∧
      Unstripped (liveParts s (keyOf actor)) [(.output, delta)]
  | .appendThinking actor _ | .pushToolUse actor _ | .completeToolUse actor _ =>
    actors actor ∧ Flushed s actor input

instance (actor : Actor) : Decidable (PlainActor actor) :=
  inferInstanceAs (Decidable (¬ _ <:+: _ ∧ _ ≠ _))

instance (parts : List MessagePart) (deltas : List (StreamDeltaKind × Str)) :
    Decidable (Unstripped parts deltas) :=
  inferInstanceAs (Decidable (∀ delta ∈ deltas, _ → _))

instance (s : State) (actor : Actor) (input : StreamInput) : Decidable (Flushed s actor input) :=
  inferInstanceAs (Decidable (∀ arrival ∈ input.arrival s, _ → _))

instance (actors : Actor → Prop) [DecidablePred actors] (key : Str) : Decidable (ReadsBack actors key) := by
  unfold ReadsBack
  split <;> infer_instance

instance (actors : Actor → Prop) [DecidablePred actors] (s : State) :
    ∀ input, Decidable (Followed actors s input)
  | .buffer _ actor _ | .setPermissionRequest actor _ _ | .setPlan actor _ =>
    inferInstanceAs (Decidable (actors actor))
  | .flushFor actor => inferInstanceAs (Decidable (actors actor ∧ Unstripped _ _))
  | .flushAll => inferInstanceAs (Decidable (∀ buffer ∈ s.pending, ReadsBack actors _ ∧ Unstripped _ _))
  | .appendOutput actor delta => inferInstanceAs
      (Decidable (actors actor ∧ Flushed s actor (.appendOutput actor delta) ∧ Unstripped _ _))
  | .appendThinking actor delta => inferInstanceAs
      (Decidable (actors actor ∧ Flushed s actor (.appendThinking actor delta)))
  | .pushToolUse actor use => inferInstanceAs
      (Decidable (actors actor ∧ Flushed s actor (.pushToolUse actor use)))
  | .completeToolUse actor result => inferInstanceAs
      (Decidable (actors actor ∧ Flushed s actor (.completeToolUse actor result)))

/-- The step leaves the entries of the other actors alone; a flush of all is a step on every actor with
    buffered deltas. -/
def KeepsOthers (actors : Actor → Prop) (s : State) (input : StreamInput) : Prop :=
  ∀ other, actors other →
    (match input with
      | .buffer _ actor _ | .flushFor actor | .appendOutput actor _ | .appendThinking actor _
      | .pushToolUse actor _ | .completeToolUse actor _ | .setPermissionRequest actor _ _
      | .setPlan actor _ => other ≠ actor
      | .flushAll => s.pending.lookup (keyOf other) = none) →
    (streamStep s input).byKey (keyOf other) = s.byKey (keyOf other)

/-! ## Keys -/

/-- The actor is read back from its key. -/
theorem splitOnce_keyOf {actor : Actor} (h : PlainActor actor) :
    Str.splitOnce "::".toList (keyOf actor) = some actor := by
  obtain ⟨sessionId, actorId⟩ := actor
  obtain ⟨hsep, hlast⟩ := h
  cases hsplit : Str.splitOnce "::".toList (keyOf (sessionId, actorId)) with
  | none =>
    exact absurd ⟨sessionId, actorId, rfl⟩ (Str.splitOnce_eq_none hsplit)
  | some split =>
    obtain ⟨before, after⟩ := split
    obtain ⟨heq, hmin⟩ := Str.splitOnce_eq_some hsplit
    have hle := hmin sessionId actorId rfl
    have heq : sessionId ++ (':' :: ':' :: actorId) = before ++ (':' :: ':' :: after) := by
      simpa [keyOf] using heq
    -- The first separator cannot start within the session id.
    obtain ⟨rest, rfl⟩ : before <+: sessionId :=
      List.prefix_of_prefix_length_le ⟨_, heq.symm⟩ ⟨_, rfl⟩ hle
    rw [List.append_assoc, List.append_cancel_left_eq] at heq
    match rest, heq with
    | [], heq =>
      have hafter : actorId = after := by simpa using heq
      rw [List.append_nil, hafter]
    | [c], heq =>
      have hc : c = ':' := by simpa using (List.cons.inj heq).1
      exact absurd (by simp [hc]) hlast
    | c :: d :: rest, heq =>
      obtain ⟨hc, heq⟩ := List.cons.inj heq
      obtain ⟨hd, -⟩ := List.cons.inj heq
      exact absurd ⟨before, rest, by simp [hc, hd]⟩ hsep

theorem keyOf_inj {a b : Actor} (ha : PlainActor a) (hb : PlainActor b) (h : keyOf a = keyOf b) :
    a = b :=
  Option.some.inj ((splitOnce_keyOf ha).symm.trans (h ▸ splitOnce_keyOf hb))

/-! ## Parts -/

/-- What comes behind the last tool does not change the prior texts. -/
private theorem priorTexts_append {parts : List MessagePart} {part : MessagePart}
    (h : part.isToolCall = false) :
    priorTextBodiesBeforeLastTool (parts ++ [part]) = priorTextBodiesBeforeLastTool parts := by
  rw [priorTextBodiesBeforeLastTool, priorTextBodiesBeforeLastTool,
    List.rdropWhile_concat_pos _ _ _ (by simp [h])]

/-- A part that takes the place of the last one, or stands behind it. -/
private theorem eq_dropLast_append {parts : List MessagePart} {part : MessagePart}
    (h : parts.getLast? = some part) : parts = parts.dropLast ++ [part] := by
  obtain ⟨init, rfl⟩ := List.getLast?_eq_some_iff.mp h
  simp

/-- What an append of a text of a kind does to parts. -/
structure Appended (kind : StreamDeltaKind) (delta : Str) (parts parts' : List MessagePart) : Prop where
  tokens : parts'.flatMap (·.tokens) =
    parts.flatMap (·.tokens) ++ (Arrival.delta kind delta).tokens
  tools : parts'.filterMap (·.toolOf) = parts.filterMap (·.toolOf)
  mem : ∀ id toolCall, .toolCall id toolCall ∈ parts' → .toolCall id toolCall ∈ parts
  priorTexts : priorTextBodiesBeforeLastTool parts' = priorTextBodiesBeforeLastTool parts

private theorem appended_text (parts : List MessagePart) (delta : Str) :
    Appended .output delta parts (appendTextPart parts delta) := by
  rw [appendTextPart]
  split
  · rename_i body hlast
    have hparts := eq_dropLast_append hlast
    generalize parts.dropLast = init at hparts ⊢
    subst hparts
    refine ⟨by simp [MessagePart.tokens, Arrival.tokens], by simp [MessagePart.toolOf], ?_, ?_⟩
    · intro id toolCall hmem
      simpa using hmem
    · rw [priorTexts_append rfl, priorTexts_append rfl]
  · refine ⟨by simp [MessagePart.tokens, Arrival.tokens], by simp [MessagePart.toolOf], ?_,
      priorTexts_append rfl⟩
    intro id toolCall hmem
    simpa using hmem

private theorem appended_reasoning (parts : List MessagePart) (delta : Str) :
    Appended .thinking delta parts (appendReasoningPart parts delta) := by
  rw [appendReasoningPart]
  split
  · rename_i body hlast
    have hparts := eq_dropLast_append hlast
    generalize parts.dropLast = init at hparts ⊢
    subst hparts
    refine ⟨by simp [MessagePart.tokens, Arrival.tokens], by simp [MessagePart.toolOf], ?_, ?_⟩
    · intro id toolCall hmem
      simpa using hmem
    · rw [priorTexts_append rfl, priorTexts_append rfl]
  · refine ⟨by simp [MessagePart.tokens, Arrival.tokens], by simp [MessagePart.toolOf], ?_,
      priorTexts_append rfl⟩
    intro id toolCall hmem
    simpa using hmem

/-- The entry with a delta of a kind. -/
def Entry.withDelta (entry : Entry) (delta : StreamDeltaKind × Str) : Entry :=
  match delta.1 with
  | .output => entry.withOutput delta.2
  | .thinking => entry.withThinking delta.2

/-- A delta that is not stripped goes behind the parts. -/
private theorem appended_withDelta {entry : Entry} {delta : StreamDeltaKind × Str}
    (hdelta : delta.2 ≠ []) (hstrip : Unstripped entry.parts [delta]) :
    Appended delta.1 delta.2 entry.parts (entry.withDelta delta).parts := by
  obtain ⟨kind, text⟩ := delta
  cases kind with
  | output =>
    have hsame := hstrip (.output, text) List.mem_cons_self rfl
    simp only [Entry.withDelta, Entry.withOutput, appendOutputToParts]
    rw [hsame, if_neg hdelta]
    exact appended_text entry.parts text
  | thinking => exact appended_reasoning entry.parts text

/-- The stripping reads the prior texts only. -/
private theorem unstripped_congr {parts parts' : List MessagePart}
    (h : priorTextBodiesBeforeLastTool parts' = priorTextBodiesBeforeLastTool parts)
    {deltas : List (StreamDeltaKind × Str)} (hs : Unstripped parts deltas) :
    Unstripped parts' deltas := by
  intro delta hmem hkind
  rw [stripPriorTranscriptTextPrefix, h, ← stripPriorTranscriptTextPrefix]
  exact hs delta hmem hkind

/-! ## What an entry shows -/

variable {entry : Entry} {shown : List Arrival}

/-- A new entry shows nothing. -/
private theorem Shows.empty (actor : Actor) : Shows { actor } [] where
  reads := rfl
  output := rfl
  thinking := rfl
  tools := rfl
  partIds _ _ hmem := by cases hmem
  distinct := List.nodup_nil
  settled _ _ hmem := by cases hmem

/-- A change of what is not shown. -/
private theorem Shows.of_eq {entry' : Entry} (h : Shows entry shown)
    (houtput : entry'.outputText = entry.outputText)
    (hthinking : entry'.thinkingText = entry.thinkingText) (hparts : entry'.parts = entry.parts)
    (htools : entry'.toolCalls = entry.toolCalls) : Shows entry' shown where
  reads := hparts ▸ h.reads
  output := houtput.trans h.output
  thinking := hthinking.trans h.thinking
  tools := by rw [hparts, htools]; exact h.tools
  partIds := hparts ▸ h.partIds
  distinct := htools ▸ h.distinct
  settled := htools ▸ h.settled

/-- A delta that is not stripped is shown behind the rest. -/
private theorem Shows.withDelta {delta : StreamDeltaKind × Str} (h : Shows entry shown)
    (hdelta : delta.2 ≠ []) (hstrip : Unstripped entry.parts [delta]) :
    Shows (entry.withDelta delta) (shown ++ [.delta delta.1 delta.2]) := by
  have happ := appended_withDelta hdelta hstrip
  have htools : (entry.withDelta delta).toolCalls = entry.toolCalls := by
    rw [Entry.withDelta]
    split <;> rfl
  exact {
    reads := by rw [happ.tokens, h.reads, List.flatMap_append, List.flatMap_singleton]
    output := by
      obtain ⟨kind, text⟩ := delta
      cases kind <;>
        simp [Entry.withDelta, Entry.withOutput, Entry.withThinking, h.output, Arrival.deltaOf]
    thinking := by
      obtain ⟨kind, text⟩ := delta
      cases kind <;>
        simp [Entry.withDelta, Entry.withOutput, Entry.withThinking, h.thinking, Arrival.deltaOf]
    tools := by rw [happ.tools, h.tools, htools]
    partIds := fun id toolCall hmem => h.partIds id toolCall (happ.mem id toolCall hmem)
    distinct := htools ▸ h.distinct
    settled := fun id isNew hmem => by
      rw [htools]
      exact h.settled id isNew (by simpa using hmem) }

/-- Deltas that are not stripped are shown behind the rest. -/
private theorem Shows.withDeltas {deltas : List (StreamDeltaKind × Str)} (h : Shows entry shown)
    (hdeltas : ∀ delta ∈ deltas, delta.2 ≠ []) (hstrip : Unstripped entry.parts deltas) :
    Shows (deltas.foldl Entry.withDelta entry)
      (shown ++ deltas.map fun delta => .delta delta.1 delta.2) := by
  induction deltas generalizing entry shown with
  | nil => simpa using h
  | cons delta deltas ih =>
    have hdelta := hdeltas delta List.mem_cons_self
    have hone : Unstripped entry.parts [delta] := fun d hd =>
      hstrip d (List.mem_singleton.mp hd ▸ List.mem_cons_self)
    have hrest : Unstripped (entry.withDelta delta).parts deltas :=
      unstripped_congr (appended_withDelta hdelta hone).priorTexts
        fun d hd => hstrip d (List.mem_cons_of_mem _ hd)
    simpa using ih (h.withDelta hdelta hone) (fun d hd => hdeltas d (List.mem_cons_of_mem _ hd)) hrest

private theorem priorTexts_withDeltas {deltas : List (StreamDeltaKind × Str)}
    (hdeltas : ∀ delta ∈ deltas, delta.2 ≠ []) (hstrip : Unstripped entry.parts deltas) :
    priorTextBodiesBeforeLastTool (deltas.foldl Entry.withDelta entry).parts =
      priorTextBodiesBeforeLastTool entry.parts := by
  induction deltas generalizing entry with
  | nil => rfl
  | cons delta deltas ih =>
    have hone : Unstripped entry.parts [delta] := fun d hd =>
      hstrip d (List.mem_singleton.mp hd ▸ List.mem_cons_self)
    have hprior := (appended_withDelta (hdeltas delta List.mem_cons_self) hone).priorTexts
    rw [List.foldl_cons, ih (fun d hd => hdeltas d (List.mem_cons_of_mem _ hd))
      (unstripped_congr hprior fun d hd => hstrip d (List.mem_cons_of_mem _ hd)), hprior]

/-- A tool that the entry did not have is shown behind the rest. -/
private theorem Shows.newTool {toolCall : ToolCall} {arrival : Arrival} (h : Shows entry shown)
    (hid : toolCall.id ≠ []) (hnew : entry.toolCalls.any (·.id == toolCall.id) = false)
    (harrival : arrival = .tool toolCall.id ∨
      arrival = .result toolCall.id true ∧ toolCall.Settled) :
    Shows { entry with
      toolCalls := entry.toolCalls ++ [toolCall]
      parts := entry.parts ++ [toolCallPart toolCall] } (shown ++ [arrival]) where
  reads := by
    have htokens : arrival.tokens = [.tool toolCall.id] := by
      rcases harrival with rfl | ⟨rfl, -⟩ <;> rfl
    rw [List.flatMap_append, List.flatMap_append, h.reads, List.flatMap_singleton,
      List.flatMap_singleton, htokens]
    rfl
  output := by
    have hdelta : arrival.deltaOf .output = none := by
      rcases harrival with rfl | ⟨rfl, -⟩ <;> rfl
    simp [h.output, hdelta]
  thinking := by
    have hdelta : arrival.deltaOf .thinking = none := by
      rcases harrival with rfl | ⟨rfl, -⟩ <;> rfl
    simp [h.thinking, hdelta]
  tools := by
    rw [List.filterMap_append, h.tools]
    rfl
  partIds id call hmem := by
    rcases List.mem_append.mp hmem with hmem | hmem
    · exact h.partIds id call hmem
    · obtain ⟨rfl, rfl⟩ := MessagePart.toolCall.inj (List.mem_singleton.mp hmem)
      exact ⟨rfl, hid⟩
  distinct := by
    rw [List.map_append, List.nodup_append]
    refine ⟨h.distinct, by simp, fun a ha b hb hab => ?_⟩
    obtain ⟨call, hcall, rfl⟩ := List.mem_map.mp ha
    have hne := (List.any_eq_false.mp hnew) call hcall
    rw [List.map_singleton, List.mem_singleton] at hb
    exact hne (beq_iff_eq.mpr (hab.trans hb))
  settled id isNew hmem := by
    rcases List.mem_append.mp hmem with hmem | hmem
    · obtain ⟨call, hcall, hrest⟩ := h.settled id isNew hmem
      exact ⟨call, List.mem_append_left _ hcall, hrest⟩
    · rcases harrival with rfl | ⟨rfl, hset⟩
      · cases List.mem_singleton.mp hmem
      · obtain ⟨rfl, -⟩ := Arrival.result.inj (List.mem_singleton.mp hmem)
        exact ⟨toolCall, by simp, rfl, hset⟩

/-- The one call with an id. -/
private theorem byId_of_mem {toolCalls : List ToolCall} (hnodup : (toolCalls.map (·.id)).Nodup)
    {call : ToolCall} (hmem : call ∈ toolCalls) : byId toolCalls call.id = some call := by
  rw [byId]
  cases hfind : toolCalls.reverse.find? (·.id == call.id) with
  | none => exact absurd (List.find?_eq_none.mp hfind call (List.mem_reverse.mpr hmem)) (by simp)
  | some found =>
    have hid : found.id = call.id := by simpa using List.find?_some hfind
    have hin := List.mem_reverse.mp (List.mem_of_find?_eq_some hfind)
    rw [List.inj_on_of_nodup_map hnodup hin hmem hid]

/-- The calls of the parts follow a change of the tool calls that keeps the ids. -/
private theorem Shows.sync {f : ToolCall → ToolCall} (h : Shows entry shown)
    (hid : ∀ tc, (f tc).id = tc.id) (hsettled : ∀ tc, tc.Settled → (f tc).Settled) :
    Shows { entry with
      toolCalls := entry.toolCalls.map f
      parts := syncToolParts entry.parts (entry.toolCalls.map f) } shown := by
  have hids : (entry.toolCalls.map f).map (·.id) = entry.toolCalls.map (·.id) := by
    simp [hid]
  have hfind : ∀ id call, MessagePart.toolCall id call ∈ entry.parts →
      (if id = [] then MessagePart.toolCall id call
        else .toolCall id ((byId (entry.toolCalls.map f) id).getD call)) = .toolCall id (f call) := by
    intro id call hmem
    obtain ⟨rfl, hne⟩ := h.partIds id call hmem
    have hcall : call ∈ entry.toolCalls := h.tools ▸ List.mem_filterMap.mpr ⟨_, hmem, rfl⟩
    have hby := byId_of_mem (hids ▸ h.distinct) (List.mem_map_of_mem (f := f) hcall)
    rw [hid] at hby
    rw [if_neg hne, hby, Option.getD_some]
  -- Each part is as before, but for the call of a tool.
  have hparts : syncToolParts entry.parts (entry.toolCalls.map f) = entry.parts.map fun
      | .toolCall id call => .toolCall id (f call)
      | part => part := by
    rw [syncToolParts]
    refine List.map_congr_left fun part hmem => ?_
    cases part with
    | toolCall id call => exact hfind id call hmem
    | _ => rfl
  rw [hparts]
  exact {
    reads := by
      rw [← h.reads, List.flatMap_map]
      refine congrArg (List.flatMap · entry.parts) (funext fun part => ?_)
      cases part <;> rfl
    output := h.output
    thinking := h.thinking
    tools := by
      rw [← h.tools, List.filterMap_map, List.map_filterMap]
      refine congrArg (List.filterMap · entry.parts) (funext fun part => ?_)
      cases part <;> rfl
    partIds := fun id call hmem => by
      obtain ⟨part, hpart, heq⟩ := List.mem_map.mp hmem
      cases part with
      | toolCall id' call' =>
        obtain ⟨rfl, rfl⟩ := MessagePart.toolCall.inj heq
        rw [hid]
        exact h.partIds _ _ hpart
      | _ => cases heq
    distinct := hids ▸ h.distinct
    settled := fun id isNew hmem => by
      obtain ⟨call, hcall, hcallId, hset⟩ := h.settled id isNew hmem
      exact ⟨f call, List.mem_map_of_mem hcall, (hid call).trans hcallId, hsettled call hset⟩ }

/-- A result of a tool that the entry has, and shows as settled. -/
private theorem Shows.result {id : Str} (h : Shows entry shown)
    (hset : ∃ toolCall ∈ entry.toolCalls, toolCall.id = id ∧ toolCall.Settled) :
    Shows entry (shown ++ [.result id false]) where
  reads := by simp [h.reads, Arrival.tokens]
  output := by simp [h.output, Arrival.deltaOf]
  thinking := by simp [h.thinking, Arrival.deltaOf]
  tools := h.tools
  partIds := h.partIds
  distinct := h.distinct
  settled id' isNew hmem := by
    rcases List.mem_append.mp hmem with hmem | hmem
    · exact h.settled id' isNew hmem
    · obtain ⟨rfl, -⟩ := Arrival.result.inj (List.mem_singleton.mp hmem)
      exact hset

/-! ## The two representations -/

/-- The characters of text, of what is shown. -/
def Token.textChar : Token → Option Char
  | .text c => some c
  | _ => none

/-- The characters of reasoning, of what is shown. -/
def Token.reasoningChar : Token → Option Char
  | .reasoning c => some c
  | _ => none

private theorem flatten_filterMap_cons {α β : Type} (f : α → Option (List β)) (a : α) (l : List α) :
    ((a :: l).filterMap f).flatten = (f a).getD [] ++ (l.filterMap f).flatten := by
  cases h : f a <;> simp [h]

/-- The texts of a kind, of parts or of arrivals, are the characters of that kind that are shown. -/
private theorem flatten_eq_filterMap {α : Type} {textOf : α → Option Str} {tokens : α → List Token}
    {charOf : Token → Option Char} (h : ∀ a, (textOf a).getD [] = (tokens a).filterMap charOf)
    (l : List α) : (l.filterMap textOf).flatten = (l.flatMap tokens).filterMap charOf := by
  induction l with
  | nil => rfl
  | cons a l ih =>
    rw [flatten_filterMap_cons, ih, h, List.flatMap_cons, List.filterMap_append]

private theorem Shows.faithful (h : Shows entry shown) : Faithful entry shown where
  toShows := h
  texts := by
    rw [h.output, @flatten_eq_filterMap _ _ MessagePart.tokens Token.textChar,
      @flatten_eq_filterMap _ _ Arrival.tokens Token.textChar, h.reads]
    · rintro (⟨_ | _, text⟩ | id | ⟨id, _ | _⟩) <;>
        simp [Arrival.deltaOf, Arrival.tokens, Token.textChar, List.filterMap_map, Function.comp_def]
    · rintro (text | text | id | body) <;>
        simp [MessagePart.textOf, MessagePart.tokens, Token.textChar, List.filterMap_map,
          Function.comp_def]
  reasonings := by
    rw [h.thinking,
      @flatten_eq_filterMap _ _ MessagePart.tokens Token.reasoningChar,
      @flatten_eq_filterMap _ _ Arrival.tokens Token.reasoningChar, h.reads]
    · rintro (⟨_ | _, text⟩ | id | ⟨id, _ | _⟩) <;>
        simp [Arrival.deltaOf, Arrival.tokens, Token.reasoningChar, List.filterMap_map,
          Function.comp_def]
    · rintro (text | text | id | body) <;>
        simp [MessagePart.reasoningOf, MessagePart.tokens, Token.reasoningChar, List.filterMap_map,
          Function.comp_def]

/-! ## Operations on the store -/

variable {s t : State} {actor : Actor}

/-- The record of a buffered delta. -/
def toArrival (delta : StreamDeltaKind × Str) : Arrival := .delta delta.1 delta.2

/-- The live entry depends on what is under the key. -/
private theorem liveEntry_congr (h : t.byKey (keyOf actor) = s.byKey (keyOf actor)) :
    liveEntry t actor = liveEntry s actor := by
  rw [liveEntry, liveEntry, prepareMutation, prepareMutation, h]

private theorem liveParts_keyOf : liveParts s (keyOf actor) = (liveEntry s actor).parts := by
  rw [liveParts, liveEntry, prepareMutation]
  cases s.byKey (keyOf actor) with
  | none => rfl
  | some entry =>
    simp only
    split <;> rfl

private theorem mutate_byKey (s : State) (actor : Actor) (f : Entry → Entry) (key : Str) :
    (mutate s actor f).byKey key =
      if key = keyOf actor then some { f (liveEntry s actor) with active := true }
      else s.byKey key := rfl

private theorem liveEntry_mutate (s : State) (actor : Actor) (f : Entry → Entry) :
    liveEntry (mutate s actor f) actor = { f (liveEntry s actor) with active := true } := by
  rw [liveEntry, prepareMutation, mutate_byKey, if_pos rfl]
  rfl

private theorem liveEntry_setEntry (s : State) (actor : Actor) {entry : Entry}
    (h : entry.active = true) : liveEntry (s.setEntry actor entry) actor = entry := by
  rw [liveEntry, prepareMutation, State.setEntry]
  simp [h]

/-- What an operation on an actor leaves alone. -/
structure OnActor (actor : Actor) (s t : State) : Prop where
  pending : t.pending = s.pending
  arrived : t.arrived = s.arrived
  others : ∀ key, key ≠ keyOf actor → t.byKey key = s.byKey key

private theorem OnActor.refl (actor : Actor) (s : State) : OnActor actor s s :=
  ⟨rfl, rfl, fun _ _ => rfl⟩

private theorem OnActor.trans {u : State} (h : OnActor actor s t) (h' : OnActor actor t u) :
    OnActor actor s u :=
  ⟨h'.pending.trans h.pending, h'.arrived.trans h.arrived,
    fun key hne => (h'.others key hne).trans (h.others key hne)⟩

private theorem onActor_mutate (s : State) (actor : Actor) (f : Entry → Entry) :
    OnActor actor s (mutate s actor f) :=
  ⟨rfl, rfl, fun key hne => by rw [mutate_byKey, if_neg hne]⟩

private theorem onActor_setEntry (s : State) (actor : Actor) (entry : Entry) :
    OnActor actor s (s.setEntry actor entry) :=
  ⟨rfl, rfl, fun _ hne => if_neg hne⟩

/-- The deltas of a run. -/
def runDeltas : Option (StreamDeltaKind × List Str) → List (StreamDeltaKind × Str)
  | none => []
  | some (kind, deltas) => deltas.map (kind, ·)

private theorem onActor_emit (s : State) (actor : Actor)
    (run : Option (StreamDeltaKind × List Str)) : OnActor actor s (emit s actor run) := by
  match run with
  | none => exact .refl actor s
  | some (.output, deltas) =>
    simp only [emit, appendOutputBatch]
    split
    · exact .refl actor s
    · exact onActor_mutate ..
  | some (.thinking, deltas) =>
    simp only [emit, appendThinkingBatch]
    split
    · exact .refl actor s
    · exact onActor_mutate ..

/-- A batch is its deltas one after the other, up to the active flag. -/
private theorem emit_liveEntry (s : State) (actor : Actor)
    {run : Option (StreamDeltaKind × List Str)} (hrun : ∀ delta ∈ runDeltas run, delta.2 ≠ []) :
    ∃ active, liveEntry (emit s actor run) actor =
      { (runDeltas run).foldl Entry.withDelta (liveEntry s actor) with active } := by
  match run with
  | none => exact ⟨_, rfl⟩
  | some (kind, deltas) =>
    have hfilter : deltas.filter (· ≠ []) = deltas := by
      refine List.filter_eq_self.mpr fun delta hmem => ?_
      simpa using hrun (kind, delta) (List.mem_map_of_mem hmem)
    rw [runDeltas, List.foldl_map]
    by_cases hnil : deltas = []
    · subst hnil
      cases kind <;> exact ⟨_, rfl⟩
    · refine ⟨true, ?_⟩
      cases kind with
      | output =>
        simp only [emit, appendOutputBatch]
        rw [hfilter, if_neg hnil, liveEntry_mutate]
        rfl
      | thinking =>
        simp only [emit, appendThinkingBatch]
        rw [hfilter, if_neg hnil, liveEntry_mutate]
        rfl

private theorem onActor_applyRuns (s : State) (actor : Actor)
    (run : Option (StreamDeltaKind × List Str)) (list : List (StreamDeltaKind × Str)) :
    OnActor actor s (applyRuns s actor run list) := by
  induction list generalizing s run with
  | nil => exact onActor_emit s actor run
  | cons delta list ih =>
    match run with
    | none => exact ih ..
    | some (runKind, deltas) =>
      rw [applyRuns]
      split
      · exact ih ..
      · exact (onActor_emit s actor _).trans (ih ..)

/-- Buffered deltas are shown behind the rest, whatever the runs. -/
private theorem applyRuns_shows {run : Option (StreamDeltaKind × List Str)}
    {list : List (StreamDeltaKind × Str)} (h : Shows (liveEntry s actor) shown)
    (hdeltas : ∀ delta ∈ runDeltas run ++ list, delta.2 ≠ [])
    (hstrip : Unstripped (liveEntry s actor).parts (runDeltas run ++ list)) :
    Shows (liveEntry (applyRuns s actor run list) actor)
      (shown ++ (runDeltas run ++ list).map toArrival) := by
  induction list generalizing s run shown with
  | nil =>
    rw [List.append_nil] at hdeltas hstrip ⊢
    obtain ⟨active, heq⟩ := emit_liveEntry s actor hdeltas
    rw [applyRuns, heq]
    exact (h.withDeltas hdeltas hstrip).of_eq rfl rfl rfl rfl
  | cons delta list ih =>
    obtain ⟨kind, text⟩ := delta
    match run with
    | none =>
      rw [applyRuns]
      exact ih h hdeltas hstrip
    | some (runKind, deltas) =>
      rw [applyRuns]
      by_cases hkind : kind = runKind
      · subst hkind
        rw [if_pos rfl]
        have hsame : runDeltas (some (kind, deltas)) ++ (kind, text) :: list =
            runDeltas (some (kind, deltas ++ [text])) ++ list := by
          simp [runDeltas]
        rw [hsame] at hdeltas hstrip ⊢
        exact ih h hdeltas hstrip
      · -- The run is emitted, and the prior texts are the same behind it.
        rw [if_neg hkind]
        have hrun : ∀ d ∈ runDeltas (some (runKind, deltas)), d.2 ≠ [] := fun d hd =>
          hdeltas d (List.mem_append_left _ hd)
        have hrunStrip : Unstripped (liveEntry s actor).parts (runDeltas (some (runKind, deltas))) :=
          fun d hd => hstrip d (List.mem_append_left _ hd)
        obtain ⟨active, heq⟩ := emit_liveEntry s actor hrun
        have hshows : Shows (liveEntry (emit s actor (some (runKind, deltas))) actor)
            (shown ++ (runDeltas (some (runKind, deltas))).map toArrival) := by
          rw [heq]
          exact (h.withDeltas hrun hrunStrip).of_eq rfl rfl rfl rfl
        have hrest := @ih _ _ (some (kind, [text])) hshows
          (fun d hd => hdeltas d (List.mem_append_right _ hd))
          (by
            rw [heq]
            exact unstripped_congr (priorTexts_withDeltas hrun hrunStrip)
              fun d hd => hstrip d (List.mem_append_right _ hd))
        simpa [runDeltas] using hrest

/-- The deltas of a buffer are applied. -/
private theorem applyBuffered_shows {list : List (StreamDeltaKind × Str)}
    (h : Shows (liveEntry s actor) shown) (hdeltas : ∀ delta ∈ list, delta.2 ≠ [])
    (hstrip : Unstripped (liveEntry s actor).parts list) :
    Shows (liveEntry (applyBuffered s actor list) actor) (shown ++ list.map toArrival) :=
  @applyRuns_shows _ _ _ none _ h hdeltas hstrip

/-! ## The invariant -/

/-- The same is shown for the two lists of arrivals: they may differ in where the results of known tools
    stand. -/
structure SameShown (arrivals arrivals' : List Arrival) : Prop where
  tokens : arrivals.flatMap (·.tokens) = arrivals'.flatMap (·.tokens)
  deltas : ∀ kind, arrivals.filterMap (·.deltaOf kind) = arrivals'.filterMap (·.deltaOf kind)
  results : ∀ id isNew, .result id isNew ∈ arrivals ↔ .result id isNew ∈ arrivals'

theorem SameShown.refl (arrivals : List Arrival) : SameShown arrivals arrivals :=
  ⟨rfl, fun _ => rfl, fun _ _ => Iff.rfl⟩

/-- The same comes behind. -/
theorem SameShown.append {arrivals arrivals' : List Arrival} (h : SameShown arrivals arrivals')
    (more : List Arrival) : SameShown (arrivals ++ more) (arrivals' ++ more) where
  tokens := by rw [List.flatMap_append, h.tokens, List.flatMap_append]
  deltas kind := by rw [List.filterMap_append, h.deltas, List.filterMap_append]
  results id isNew := by rw [List.mem_append, h.results, List.mem_append]

/-- The result of a known tool comes behind, or before what is buffered. -/
theorem SameShown.result {arrivals before after : List Arrival} (h : SameShown arrivals (before ++ after))
    (id : Str) : SameShown (arrivals ++ [.result id false]) (before ++ [.result id false] ++ after) where
  tokens := by
    have hnone : (Arrival.result id false).tokens = [] := rfl
    simp [h.tokens, hnone]
  deltas kind := by
    have hnone : (Arrival.result id false).deltaOf kind = none := rfl
    simp [h.deltas, hnone]
  results id' isNew := by
    simp only [List.mem_append, h.results, List.mem_singleton]
    tauto

/-- What shows the one shows the other. -/
theorem SameShown.shows {arrivals arrivals' : List Arrival} {entry : Entry} (h : SameShown arrivals arrivals')
    (hshows : Shows entry arrivals') : Shows entry arrivals where
  reads := h.tokens ▸ hshows.reads
  output := h.deltas .output ▸ hshows.output
  thinking := h.deltas .thinking ▸ hshows.thinking
  tools := hshows.tools
  partIds := hshows.partIds
  distinct := hshows.distinct
  settled id isNew hmem := hshows.settled id isNew ((h.results id isNew).mp hmem)

/-- What arrived for an actor is what its live entry shows, followed by what is buffered. -/
def ActorInv (s : State) (actor : Actor) : Prop :=
  ∃ shown, SameShown (arrivalsOf s actor) (shown ++ (bufferedOf s actor).map toArrival) ∧
    Shows (liveEntry s actor) shown

variable {actors : Actor → Prop}

/-- The actors have different keys, the buffers are theirs, one for each, and the invariant of each of them
    holds. -/
structure StreamInv (actors : Actor → Prop) (s : State) : Prop where
  keys : ∀ a b, actors a → actors b → keyOf a = keyOf b → a = b
  nodup : (s.pending.map (·.1)).Nodup
  owned : ∀ buffer ∈ s.pending, (∃ actor, actors actor ∧ buffer.1 = keyOf actor) ∧
    ∀ delta ∈ buffer.2, delta.2 ≠ []
  inv : ∀ actor, actors actor → ActorInv s actor

/-- What is recorded for an actor. -/
private theorem arrivalsOf_record {arrival : Option (Actor × Arrival)}
    (h : t.arrived = s.arrived ++ arrival.toList) (other : Actor) :
    arrivalsOf t other =
      arrivalsOf s other ++ (arrival.toList.filter (·.1 == other)).map (·.2) := by
  rw [arrivalsOf, h, List.filter_append, List.map_append]
  rfl

/-- An operation on the live entry of an actor: what arrives with it is shown behind the rest, and then no
    delta of the actor is buffered. -/
private theorem StreamInv.direct (arrival : Option Arrival) (h : StreamInv actors s)
    (hactor : actors actor)
    (hon : OnActor actor { s with arrived := s.arrived ++ (arrival.map (actor, ·)).toList } t)
    (hlive : ∀ shown, Shows (liveEntry s actor) shown →
      Shows (liveEntry t actor) (shown ++ arrival.toList))
    (hbuffered : bufferedOf s actor = [] ∨ arrival = none ∨ ∃ id, arrival = some (.result id false)) :
    StreamInv actors t where
  keys := h.keys
  nodup := by rw [hon.pending]; exact h.nodup
  owned := by rw [hon.pending]; exact h.owned
  inv other hother := by
    obtain ⟨shown, harrivals, hshows⟩ := h.inv other hother
    have hbuffer : bufferedOf t other = bufferedOf s other := by
      rw [bufferedOf, hon.pending]
      rfl
    by_cases hsame : other = actor
    · subst hsame
      refine ⟨shown ++ arrival.toList, ?_, hlive shown hshows⟩
      rw [arrivalsOf_record hon.arrived, hbuffer]
      rcases hbuffered with hnil | rfl | ⟨id, rfl⟩
      · rw [hnil, List.map_nil, List.append_nil] at harrivals ⊢
        have hmore := harrivals.append arrival.toList
        cases arrival <;> simpa using hmore
      · simpa using harrivals
      · simpa using harrivals.result id
    · have hne : keyOf other ≠ keyOf actor := fun heq => hsame (h.keys _ _ hother hactor heq)
      refine ⟨shown, ?_, ?_⟩
      · rw [arrivalsOf_record hon.arrived, hbuffer]
        have hnot : actor ≠ other := Ne.symm hsame
        cases arrival <;> simpa [hnot] using harrivals
      · rw [liveEntry_congr (hon.others _ hne)]
        exact hshows

/-- A change of the live entry. -/
private theorem StreamInv.mutate (arrival : Option Arrival) {f : Entry → Entry} (h : StreamInv actors s)
    (hactor : actors actor)
    (hbuffered : bufferedOf s actor = [] ∨ arrival = none ∨ ∃ id, arrival = some (.result id false))
    (hf : ∀ shown, Shows (liveEntry s actor) shown →
      Shows (f (liveEntry s actor)) (shown ++ arrival.toList)) :
    StreamInv actors (StreamStore.mutate
      { s with arrived := s.arrived ++ (arrival.map (actor, ·)).toList } actor f) := by
  refine h.direct arrival hactor (onActor_mutate _ actor f) (fun shown hshows => ?_) hbuffered
  rw [liveEntry_mutate]
  exact (hf shown hshows).of_eq rfl rfl rfl rfl

/-- A step that leaves the live entry alone. -/
private theorem StreamInv.same (h : StreamInv actors s) :
    StreamInv actors { s with arrived := s.arrived ++ (none : Option (Actor × Arrival)).toList } := by
  simpa using h

private theorem StreamInv.stepAppend {delta : Str} (kind : StreamDeltaKind) (h : StreamInv actors s)
    (hactor : actors actor) (hbuffered : bufferedOf s actor = [])
    (hstrip : Unstripped (liveEntry s actor).parts [(kind, delta)]) (hdelta : delta ≠ []) :
    StreamInv actors (StreamStore.mutate { s with arrived := s.arrived ++ [(actor, .delta kind delta)] }
      actor fun entry => entry.withDelta (kind, delta)) :=
  StreamInv.mutate (some (.delta kind delta)) h hactor (.inl hbuffered)
    fun _ hshows => hshows.withDelta hdelta hstrip

private theorem StreamInv.pushToolUse {use : ToolUse} (h : StreamInv actors s) (hactor : actors actor)
    (hflushed : Flushed s actor (.pushToolUse actor use)) :
    StreamInv actors (streamStep s (.pushToolUse actor use)) := by
  unfold Flushed at hflushed
  simp only [streamStep, streamEffect, StreamInput.arrival, StreamStore.pushToolUse] at hflushed ⊢
  by_cases hid : use.toolId = []
  · rw [if_pos hid, if_pos (by simp [hid])]
    exact h.same
  · rw [if_neg hid]
    cases hhas : s.hasTool actor use.toolId with
    | true =>
      rw [if_pos (by simp)]
      refine StreamInv.mutate none h hactor (.inr (.inl rfl)) fun shown hshows => ?_
      have hhas : (liveEntry s actor).toolCalls.any (·.id == use.toolId) = true := hhas
      rw [if_pos hhas, Option.toList_none, List.append_nil]
      exact hshows.sync (fun tc => by split <;> rfl) fun tc hset => by split <;> exact hset
    | false =>
      have hbuffered : bufferedOf s actor = [] := hflushed (actor, .tool use.toolId)
        (by simp [hid, hhas]) (by simp [Arrival.tokens])
      rw [if_neg (by simp [hid])]
      refine StreamInv.mutate (some (.tool use.toolId)) h hactor (.inl hbuffered)
        fun shown hshows => ?_
      rw [if_neg (by rw [State.hasTool, ← liveEntry] at hhas; simp [hhas])]
      exact hshows.newTool hid hhas (.inl rfl)

private theorem ToolResult.complete_settled (result : ToolResult) (toolCall : ToolCall) :
    (result.complete toolCall).Settled := by
  cases h : result.success
  · exact .inr (by simp [ToolResult.complete, h])
  · exact .inl (by simp [ToolResult.complete, h])

/-- The entry with the result of its tool shows it. -/
private theorem Shows.complete {result : ToolResult} (h : Shows entry shown)
    (hhas : entry.toolCalls.any (·.id == result.toolId) = true) :
    Shows (entry.complete result) (shown ++ [.result result.toolId false]) := by
  have hsync := h.sync (f := fun tc => if tc.id = result.toolId then result.complete tc else tc)
    (fun tc => by split <;> rfl)
    (fun tc hset => by
      split
      · exact result.complete_settled tc
      · exact hset)
  obtain ⟨call, hcall, hid⟩ := List.any_eq_true.mp hhas
  have hid : call.id = result.toolId := beq_iff_eq.mp hid
  refine hsync.result ⟨result.complete call, ?_, hid, result.complete_settled call⟩
  exact List.mem_map.mpr ⟨call, hcall, if_pos hid⟩

private theorem StreamInv.completeToolUse {result : ToolResult} (h : StreamInv actors s)
    (hactor : actors actor) (hflushed : Flushed s actor (.completeToolUse actor result)) :
    StreamInv actors (streamStep s (.completeToolUse actor result)) := by
  -- Nothing arrives, and the live entry is as before.
  have hnothing : ∀ t, OnActor actor { s with arrived := s.arrived ++ [] } t →
      liveEntry t actor = liveEntry s actor → StreamInv actors t := fun t hon heq =>
    h.direct none hactor hon (fun shown hshows => by
      rw [heq, Option.toList_none, List.append_nil]
      exact hshows) (.inr (.inl rfl))
  unfold Flushed at hflushed
  simp only [streamStep, streamEffect, StreamInput.arrival, StreamStore.completeToolUse] at hflushed ⊢
  cases hkey : s.byKey (keyOf actor) with
  | none =>
    simp only
    split
    · exact hnothing _ ⟨rfl, rfl, fun _ _ => rfl⟩ rfl
    · split <;> exact hnothing _ ⟨rfl, rfl, fun _ _ => rfl⟩ rfl
  | some existing =>
    simp only
    by_cases hid : result.toolId = []
    · rw [if_pos hid, if_pos (by simp [hid])]
      exact hnothing _ ⟨rfl, rfl, fun _ _ => rfl⟩ rfl
    · rw [if_neg hid]
      cases hactive : existing.active with
      | false =>
        -- The entry is of an earlier turn, and stays so.
        have hlive : ∀ t : State, (∃ entry, t.byKey (keyOf actor) = some entry ∧
            entry.active = false) → liveEntry t actor = liveEntry s actor := by
          rintro t ⟨entry, hentry, hinactive⟩
          simp [liveEntry, prepareMutation, hentry, hkey, hactive, hinactive]
        have hold : (decide (result.toolId = []) || !false) = true := by simp
        rw [if_pos hold]
        split
        · exact hnothing _ (onActor_setEntry _ actor _)
            (hlive _ ⟨existing.complete result, if_pos rfl, hactive⟩)
        · split
          · exact hnothing _ ⟨rfl, rfl, fun _ _ => rfl⟩ (hlive _ ⟨existing, hkey, hactive⟩)
          · exact hnothing _ (onActor_setEntry _ actor _) (hlive _ ⟨_, if_pos rfl, rfl⟩)
      | true =>
        have hlive : liveEntry s actor = existing := by
          simp [liveEntry, prepareMutation, hkey, hactive]
        have hnew : ¬ (decide (result.toolId = []) || !true) = true := by simp [hid]
        rw [if_neg hnew]
        by_cases hhas : existing.toolCalls.any (·.id == result.toolId) = true
        · rw [if_pos hhas, if_pos hhas]
          refine h.direct (some (.result result.toolId false)) hactor
            (onActor_setEntry _ actor _) (fun shown hshows => ?_) (.inr (.inr ⟨_, rfl⟩))
          have hcomplete : (existing.complete result).active = true := hactive
          rw [liveEntry_setEntry _ actor hcomplete]
          rw [hlive] at hshows
          exact hshows.complete hhas
        · rw [if_neg hhas, if_neg hhas]
          cases harchived : completeArchived s.archived actor result with
          | some archived =>
            exact hnothing _ ⟨rfl, rfl, fun _ _ => rfl⟩ rfl
          | none =>
            simp only
            have hbuffered : bufferedOf s actor = [] := hflushed (actor, .result result.toolId true)
              (by simp [hkey, hid, hactive, Bool.eq_false_iff.mpr hhas, harchived]) (by simp [Arrival.tokens])
            refine h.direct (some (.result result.toolId true)) hactor
              (onActor_setEntry _ actor _) (fun shown hshows => ?_) (.inl hbuffered)
            rw [liveEntry_setEntry _ actor rfl]
            rw [hlive] at hshows
            have hnew : existing.toolCalls.any (·.id == (completedToolPlaceholder result).id) = false :=
              Bool.eq_false_iff.mpr hhas
            have hset : (completedToolPlaceholder result).Settled := by
              cases hsuccess : result.success
              · exact .inr (by simp [completedToolPlaceholder, hsuccess])
              · exact .inl (by simp [completedToolPlaceholder, hsuccess])
            exact (hshows.newTool hid hnew (.inr ⟨rfl, hset⟩)).of_eq rfl rfl rfl rfl

/-! ## The buffer -/

/-- A delta of an actor is buffered. -/
private theorem StreamInv.buffer {kind : StreamDeltaKind} {delta : Str} (h : StreamInv actors s)
    (hactor : actors actor) : StreamInv actors (streamStep s (.buffer kind actor delta)) := by
  simp only [streamStep, streamEffect, StreamInput.arrival, bufferStreamDelta]
  by_cases hdelta : delta = []
  · rw [if_pos hdelta, if_pos hdelta]
    exact h.same
  · rw [if_neg hdelta, if_neg hdelta]
    -- The buffer of the actor is longer by the delta, and the others are as before.
    have hlookup : ∀ t : State,
        (∀ key, t.pending.lookup key =
          if key = keyOf actor then some (bufferedOf s actor ++ [(kind, delta)])
          else s.pending.lookup key) →
        t.arrived = s.arrived ++ (some (actor, Arrival.delta kind delta)).toList →
        t.byKey = s.byKey → ∀ other, actors other → ActorInv t other := by
      intro t hpending harrived hkeys other hother
      obtain ⟨shown, harrivals, hshows⟩ := h.inv other hother
      have hlive : liveEntry t other = liveEntry s other := liveEntry_congr (by rw [hkeys])
      refine ⟨shown, ?_, hlive ▸ hshows⟩
      rw [arrivalsOf_record harrived]
      by_cases hsame : other = actor
      · subst hsame
        have hbuffer : bufferedOf t other = bufferedOf s other ++ [(kind, delta)] := by
          rw [bufferedOf, hpending, if_pos rfl, Option.getD_some]
        have hmore := harrivals.append [.delta kind delta]
        simpa [hbuffer, toArrival] using hmore
      · have hne : keyOf other ≠ keyOf actor := fun heq => hsame (h.keys _ _ hother hactor heq)
        have hbuffer : bufferedOf t other = bufferedOf s other := by
          rw [bufferedOf, hpending, if_neg hne, bufferedOf]
        have hnot : actor ≠ other := Ne.symm hsame
        simpa [hbuffer, hnot] using harrivals
    by_cases hany : s.pending.any (·.1 == keyOf actor) = true
    · rw [if_pos hany]
      obtain ⟨buffer, hmem, hkey⟩ := List.any_eq_true.mp hany
      have hkey : buffer.1 = keyOf actor := beq_iff_eq.mp hkey
      refine ⟨h.keys, ?_, fun buffer' hmem' => ?_, hlookup _ (fun key => ?_) rfl rfl⟩
      · rw [Assoc.keys_update]
        exact h.nodup
      · obtain ⟨old, hold, rfl⟩ := List.mem_map.mp hmem'
        obtain ⟨hactor, hdeltas⟩ := h.owned old hold
        split
        · refine ⟨hactor, fun d hd => ?_⟩
          rcases List.mem_append.mp hd with hd | hd
          · exact hdeltas d hd
          · rw [List.mem_singleton.mp hd]
            exact hdelta
        · exact ⟨hactor, hdeltas⟩
      · have hold : s.pending.lookup (keyOf actor) = some buffer.2 :=
          Assoc.lookup_of_mem h.nodup (hkey ▸ hmem)
        rw [bufferedOf, hold]
        split
        · rename_i heq
          rw [heq, Assoc.lookup_update_self, hold]
          rfl
        · rename_i hne
          rw [Assoc.lookup_update_of_ne hne]
    · rw [if_neg hany]
      have hnot : keyOf actor ∉ s.pending.map (·.1) := fun hmem => by
        obtain ⟨buffer, hbuffer, hkey⟩ := List.mem_map.mp hmem
        exact hany (List.any_eq_true.mpr ⟨buffer, hbuffer, beq_iff_eq.mpr hkey⟩)
      refine ⟨h.keys, ?_, fun buffer' hmem' => ?_, hlookup _ (fun key => ?_) rfl rfl⟩
      · rw [List.map_append, List.nodup_append]
        refine ⟨h.nodup, by simp, fun a ha b hb hab => hnot ?_⟩
        have hb : b = keyOf actor := List.mem_singleton.mp hb
        exact hb ▸ hab ▸ ha
      · rcases List.mem_append.mp hmem' with hmem' | hmem'
        · exact h.owned buffer' hmem'
        · rw [List.mem_singleton.mp hmem']
          refine ⟨⟨actor, hactor, rfl⟩, fun d hd => ?_⟩
          rw [List.mem_singleton.mp hd]
          exact hdelta
      · rw [List.lookup_append, bufferedOf, Assoc.lookup_eq_none hnot]
        by_cases heq : key = keyOf actor
        · simp [heq, Assoc.lookup_eq_none hnot]
        · rw [if_neg heq, List.lookup_cons, beq_false_of_ne heq]
          simp

/-- The deltas of an actor are flushed. -/
private theorem StreamInv.flushFor (h : StreamInv actors s) (hactor : actors actor)
    (hstrip : Unstripped (liveEntry s actor).parts (bufferedOf s actor)) :
    StreamInv actors (flushStreamDeltasFor s actor) := by
  rw [flushStreamDeltasFor]
  cases hlookup : s.pending.lookup (keyOf actor) with
  | none => exact h
  | some list =>
    simp only
    have hbuffered : bufferedOf s actor = list := by rw [bufferedOf, hlookup, Option.getD_some]
    have hdeltas := (h.owned _ (Assoc.mem_of_lookup hlookup)).2
    let flushed : State := { s with pending := s.pending.filter (·.1 != keyOf actor) }
    have hon : OnActor actor flushed (applyBuffered flushed actor list) := onActor_applyRuns ..
    have hsub : flushed.pending.Sublist s.pending := List.filter_sublist
    refine ⟨h.keys, ?_, fun buffer hmem => ?_, fun other hother => ?_⟩
    · rw [hon.pending]
      exact h.nodup.sublist (hsub.map _)
    · rw [hon.pending] at hmem
      exact h.owned buffer (hsub.subset hmem)
    · obtain ⟨shown, harrivals, hshows⟩ := h.inv other hother
      have harrived : arrivalsOf (applyBuffered flushed actor list) other = arrivalsOf s other := by
        rw [arrivalsOf, hon.arrived]
        rfl
      by_cases hsame : other = actor
      · subst hsame
        refine ⟨shown ++ list.map toArrival, ?_,
          applyBuffered_shows hshows hdeltas (hbuffered ▸ hstrip)⟩
        rw [harrived, bufferedOf, hon.pending, Assoc.lookup_filter_self]
        rw [hbuffered] at harrivals
        simpa using harrivals
      · have hne : keyOf other ≠ keyOf actor := fun heq => hsame (h.keys _ _ hother hactor heq)
        refine ⟨shown, ?_, ?_⟩
        · rw [bufferedOf] at harrivals
          rw [harrived, bufferedOf, hon.pending, Assoc.lookup_filter_of_ne hne]
          exact harrivals
        · rw [liveEntry_congr (hon.others _ hne)]
          exact hshows

/-- One buffer of a flush of all. -/
def flushBuffer (s : State) (buffer : Str × List (StreamDeltaKind × Str)) : State :=
  match Str.splitOnce "::".toList buffer.1 with
  | some actor => applyBuffered s actor buffer.2
  | none => s

/-- A key that is read back is that of the actor. -/
private theorem readsBack_iff {key : Str} (h : ReadsBack actors key) :
    ∃ actor, actors actor ∧ Str.splitOnce "::".toList key = some actor ∧ key = keyOf actor := by
  unfold ReadsBack at h
  split at h
  · next actor hsplit => exact ⟨actor, h, hsplit, (Str.splitOnce_eq_some hsplit).1⟩
  · exact h.elim

/-- The buffers are flushed one after the other: the live entry of an actor shows those of its own. -/
private theorem flushBuffers {buffers : List (Str × List (StreamDeltaKind × Str))}
    (hnodup : (buffers.map (·.1)).Nodup)
    (hkeys : ∀ a b, actors a → actors b → keyOf a = keyOf b → a = b)
    (hbuffers : ∀ buffer ∈ buffers, ReadsBack actors buffer.1 ∧ ∀ delta ∈ buffer.2, delta.2 ≠ [])
    (s : State) :
    (buffers.foldl flushBuffer s).pending = s.pending ∧
      (buffers.foldl flushBuffer s).arrived = s.arrived ∧
      ∀ actor, actors actor →
        (buffers.lookup (keyOf actor) = none →
          (buffers.foldl flushBuffer s).byKey (keyOf actor) = s.byKey (keyOf actor)) ∧
        ∀ shown, Shows (liveEntry s actor) shown →
          Unstripped (liveEntry s actor).parts ((buffers.lookup (keyOf actor)).getD []) →
          Shows (liveEntry (buffers.foldl flushBuffer s) actor)
            (shown ++ ((buffers.lookup (keyOf actor)).getD []).map toArrival) := by
  induction buffers generalizing s with
  | nil =>
    refine ⟨rfl, rfl, fun actor _ => ⟨fun _ => rfl, fun shown hshows _ => ?_⟩⟩
    simpa using hshows
  | cons buffer buffers ih =>
    obtain ⟨hnot, hrest⟩ := List.nodup_cons.mp hnodup
    obtain ⟨key, list⟩ := buffer
    obtain ⟨hreads, hdeltas⟩ := hbuffers _ List.mem_cons_self
    obtain ⟨owner, howner, hsplit, rfl⟩ := readsBack_iff hreads
    have hflush : flushBuffer s (keyOf owner, list) = applyBuffered s owner list := by
      rw [flushBuffer, hsplit]
    obtain ⟨hpending, harrived, hactors⟩ := ih hrest
      (fun b hb => hbuffers b (List.mem_cons_of_mem _ hb)) (flushBuffer s (keyOf owner, list))
    rw [hflush] at hpending harrived hactors
    have hon : OnActor owner s (applyBuffered s owner list) := onActor_applyRuns ..
    rw [List.foldl_cons, hflush]
    refine ⟨hpending.trans hon.pending, harrived.trans hon.arrived, fun actor hactor => ?_⟩
    obtain ⟨hother, hshow⟩ := hactors actor hactor
    by_cases hsame : actor = owner
    · -- Its own buffer; there is no second one.
      subst hsame
      have hnone : buffers.lookup (keyOf actor) = none := Assoc.lookup_eq_none hnot
      rw [List.lookup_cons_self]
      refine ⟨fun h => (by cases h), fun shown hshows hstrip => ?_⟩
      have happlied := applyBuffered_shows hshows hdeltas hstrip
      have hafter := hshow _ happlied (by rw [hnone]; exact fun _ h => (by cases h))
      simpa [hnone] using hafter
    · have hne : keyOf actor ≠ keyOf owner := fun heq => hsame (hkeys _ _ hactor howner heq)
      rw [Assoc.lookup_cons_of_ne hne]
      have hlive := liveEntry_congr (hon.others _ hne)
      refine ⟨fun hnone => (hother hnone).trans (hon.others _ hne), fun shown hshows hstrip => ?_⟩
      exact hshow shown (hlive ▸ hshows) (hlive ▸ hstrip)

/-- All deltas are flushed. -/
private theorem StreamInv.flushAll (h : StreamInv actors s)
    (hstrip : ∀ buffer ∈ s.pending, ReadsBack actors buffer.1 ∧ Unstripped (liveParts s buffer.1) buffer.2) :
    StreamInv actors (flushAllStreamDeltas s) := by
  obtain ⟨hpending, harrived, hactors⟩ := flushBuffers h.nodup h.keys
    (fun buffer hmem => ⟨(hstrip buffer hmem).1, (h.owned buffer hmem).2⟩) { s with pending := [] }
  have heq : flushAllStreamDeltas s = s.pending.foldl flushBuffer { s with pending := [] } := rfl
  rw [heq]
  refine ⟨h.keys, by rw [hpending]; exact List.nodup_nil, fun buffer hmem => ?_, fun actor hactor => ?_⟩
  · rw [hpending] at hmem
    cases hmem
  · obtain ⟨shown, harrivals, hshows⟩ := h.inv actor hactor
    refine ⟨shown ++ (bufferedOf s actor).map toArrival, ?_, (hactors actor hactor).2 shown hshows ?_⟩
    · have hnothing : bufferedOf (s.pending.foldl flushBuffer { s with pending := [] }) actor = [] := by
        rw [bufferedOf, hpending]
        rfl
      rw [hnothing, List.map_nil, List.append_nil, arrivalsOf, harrived]
      exact harrivals
    · intro delta hmem
      cases hlookup : s.pending.lookup (keyOf actor) with
      | none => rw [hlookup] at hmem; cases hmem
      | some list =>
        rw [hlookup] at hmem
        have hbuffer := (hstrip _ (Assoc.mem_of_lookup hlookup)).2
        rw [liveParts_keyOf] at hbuffer
        exact hbuffer delta hmem

/-! ## Runs -/

/-- Every step that is followed keeps the invariant. -/
private theorem StreamInv.step {input : StreamInput} (h : StreamInv actors s) (hf : Followed actors s input) :
    StreamInv actors (streamStep s input) := by
  cases input with
  | buffer kind actor delta => exact h.buffer hf
  | flushFor actor =>
    have hstrip := hf.2
    rw [liveParts_keyOf] at hstrip
    exact h.same.flushFor hf.1 (by simpa using hstrip)
  | flushAll => exact h.same.flushAll hf
  -- an append goes past the buffer, so the order needs it empty
  | appendOutput actor delta =>
    obtain ⟨hactor, hflushed, hstrip⟩ := hf
    rw [liveParts_keyOf] at hstrip
    simp only [streamStep, streamEffect, StreamInput.arrival, StreamStore.appendOutput]
    by_cases hdelta : delta = []
    · rw [if_pos hdelta, if_pos hdelta]
      exact h.same
    · have hbuffered : bufferedOf s actor = [] := hflushed (actor, .delta .output delta)
        (by simp [StreamInput.arrival, hdelta]) (by simp [Arrival.tokens, hdelta])
      rw [if_neg hdelta, if_neg hdelta]
      exact h.stepAppend .output hactor hbuffered hstrip hdelta
  | appendThinking actor delta =>
    obtain ⟨hactor, hflushed⟩ := hf
    simp only [streamStep, streamEffect, StreamInput.arrival, StreamStore.appendThinking]
    by_cases hdelta : delta = []
    · rw [if_pos hdelta, if_pos hdelta]
      exact h.same
    · have hbuffered : bufferedOf s actor = [] := hflushed (actor, .delta .thinking delta)
        (by simp [StreamInput.arrival, hdelta]) (by simp [Arrival.tokens, hdelta])
      rw [if_neg hdelta, if_neg hdelta]
      refine h.stepAppend .thinking hactor hbuffered (fun d hd hkind => ?_) hdelta
      rw [List.mem_singleton.mp hd] at hkind
      cases hkind
  | pushToolUse actor use => exact h.pushToolUse hf.1 hf.2
  | completeToolUse actor result => exact h.completeToolUse hf.1 hf.2
  | setPermissionRequest actor requestId req =>
    simp only [streamStep, streamEffect, StreamInput.arrival, StreamStore.setPermissionRequest]
    split
    · exact h.same
    · refine StreamInv.mutate none h hf (.inr (.inl rfl)) fun shown hshows => ?_
      rw [Option.toList_none, List.append_nil]
      exact hshows.of_eq rfl rfl rfl rfl
  | setPlan actor entries =>
    simp only [streamStep, streamEffect, StreamInput.arrival, StreamStore.setPlan]
    refine StreamInv.mutate none h hf (.inr (.inl rfl)) fun shown hshows => ?_
    rw [Option.toList_none, List.append_nil]
    exact hshows.of_eq rfl rfl rfl rfl

/-- The operations on an actor leave the others alone. -/
private theorem onActor_completeToolUse (s : State) (actor : Actor) (result : ToolResult) :
    OnActor actor s (completeToolUse s actor result) := by
  rw [completeToolUse]
  split
  · exact .refl actor s
  · split
    · split
      · exact onActor_setEntry ..
      · split
        · exact ⟨rfl, rfl, fun _ _ => rfl⟩
        · exact onActor_setEntry ..
    · split
      · exact ⟨rfl, rfl, fun _ _ => rfl⟩
      · exact .refl actor s

/-- No step on an actor changes the entry under another key. -/
private theorem keepsOthers {input : StreamInput} (h : StreamInv actors s) (hf : Followed actors s input) :
    KeepsOthers actors s input := by
  intro other hother hne
  have hkey : ∀ {actor}, actors actor → other ≠ actor → keyOf other ≠ keyOf actor :=
    fun hactor hne heq => hne (h.keys _ _ hother hactor heq)
  cases input with
  | buffer kind actor delta =>
    simp only [streamStep, streamEffect, bufferStreamDelta]
    split
    · rfl
    · split <;> rfl
  | flushFor actor =>
    simp only [streamStep, streamEffect, flushStreamDeltasFor]
    split
    · rfl
    · exact (onActor_applyRuns ..).others _ (hkey hf.1 hne)
  -- each buffer goes to the actor that its key is read back as
  | flushAll =>
    exact ((flushBuffers h.nodup h.keys
      (fun buffer hmem => ⟨(hf buffer hmem).1, (h.owned buffer hmem).2⟩) _).2.2 other hother).1 hne
  | appendOutput actor delta =>
    simp only [streamStep, streamEffect, StreamStore.appendOutput]
    split
    · rfl
    · exact (onActor_mutate ..).others _ (hkey hf.1 hne)
  | appendThinking actor delta =>
    simp only [streamStep, streamEffect, StreamStore.appendThinking]
    split
    · rfl
    · exact (onActor_mutate ..).others _ (hkey hf.1 hne)
  | pushToolUse actor use =>
    simp only [streamStep, streamEffect, StreamStore.pushToolUse]
    split
    · rfl
    · exact (onActor_mutate ..).others _ (hkey hf.1 hne)
  | completeToolUse actor result =>
    exact (onActor_completeToolUse ..).others _ (hkey hf.1 hne)
  | setPermissionRequest actor requestId req =>
    simp only [streamStep, streamEffect, StreamStore.setPermissionRequest]
    split
    · rfl
    · exact (onActor_mutate ..).others _ (hkey hf hne)
  | setPlan actor entries =>
    simp only [streamStep, streamEffect, StreamStore.setPlan]
    exact (onActor_mutate ..).others _ (hkey hf hne)

/-- In every run on actors with different keys whose steps are followed, over the finished entries of earlier
    turns, no step changes the entry of another actor, and an actor without buffered deltas has a live entry
    that is faithful to what arrived for it. -/
theorem transcript_faithful {byKey : Str → Option Entry} (archived : List Entry)
    (hold : ∀ key entry, byKey key = some entry → entry.active = false) {actors : Actor → Prop}
    (hkeys : ∀ a b, actors a → actors b → keyOf a = keyOf b → a = b) {inputs : List StreamInput}
    (hsteps : (streamMachine byKey archived).Steps (Followed actors)
      (streamMachine byKey archived).init inputs) :
    (streamMachine byKey archived).Steps (KeepsOthers actors) (streamMachine byKey archived).init inputs ∧
      ∀ actor, actors actor →
        bufferedOf ((streamMachine byKey archived).run inputs) actor = [] →
        Faithful (liveEntry ((streamMachine byKey archived).run inputs) actor)
          (arrivalsOf ((streamMachine byKey archived).run inputs) actor) := by
  have hinit : StreamInv actors (streamMachine byKey archived).init := by
    refine ⟨hkeys, List.nodup_nil, fun _ hmem => (by cases hmem), fun actor _ => ⟨[], .refl [], ?_⟩⟩
    have hfresh : liveEntry (streamMachine byKey archived).init actor = { actor } := by
      simp only [liveEntry, prepareMutation, streamMachine]
      cases hkey : byKey (keyOf actor) with
      | none => rfl
      | some entry => simp [hold _ _ hkey]
    rw [hfresh]
    exact Shows.empty actor
  have hstep : ∀ s input, StreamInv actors s → Followed actors s input →
      StreamInv actors ((streamMachine byKey archived).step s input) := fun _ _ h hf => h.step hf
  refine ⟨Machine.Steps.of_invariant hstep (fun _ _ h hf => keepsOthers h hf) hinit hsteps,
    fun actor hactor hnone => ?_⟩
  obtain ⟨shown, harrivals, hshows⟩ :=
    (Machine.invariant_runFrom hstep hinit hsteps).inv actor hactor
  rw [Machine.run] at hnone ⊢
  rw [hnone, List.map_nil, List.append_nil] at harrivals
  exact (harrivals.shows hshows).faithful

/-! ## A turn -/

/-- A session and its agent, for the runs below. -/
def agent : Actor := ("s1".toList, "agent".toList)

/-- Thinking and output come over the buffer, and a tool runs between two texts. -/
def toolTurn : List StreamInput :=
  [.buffer .thinking agent "Hm.".toList, .buffer .output agent "Look".toList,
    .buffer .output agent "ing. ".toList, .flushFor agent, .pushToolUse agent { toolId := "t1".toList },
    .completeToolUse agent { toolId := "t1".toList, success := true, summary := "ok".toList },
    .buffer .output agent " Done.".toList, .flushAll]

/-- Behind a tool comes a delta of white space. -/
def blankTurn : List StreamInput :=
  [.appendOutput agent "Look.".toList, .pushToolUse agent { toolId := "t1".toList },
    .appendOutput agent " ".toList]

theorem transcript_faithful_toolTurn :
    (streamMachine (fun _ => none) []).Steps (KeepsOthers PlainActor)
        (streamMachine (fun _ => none) []).init toolTurn ∧
      ∀ actor, PlainActor actor →
        bufferedOf ((streamMachine (fun _ => none) []).run toolTurn) actor = [] →
        Faithful (liveEntry ((streamMachine (fun _ => none) []).run toolTurn) actor)
          (arrivalsOf ((streamMachine (fun _ => none) []).run toolTurn) actor) :=
  transcript_faithful [] (fun _ _ h => by cases h) (fun _ _ => keyOf_inj) (by decide +kernel)

/-- The ids have no separator in them. -/
def NoSeparator (actor : Actor) : Prop :=
  ¬ "::".toList <:+: actor.1 ∧ ¬ "::".toList <:+: actor.2

instance (actor : Actor) : Decidable (NoSeparator actor) :=
  inferInstanceAs (Decidable (¬ _ <:+: _ ∧ ¬ _ <:+: _))

/-- The actor of an input; a flush of all has none. -/
def StreamInput.on : StreamInput → Option Actor
  | .buffer _ actor _ | .flushFor actor | .appendOutput actor _ | .appendThinking actor _
  | .pushToolUse actor _ | .completeToolUse actor _ | .setPermissionRequest actor _ _
  | .setPlan actor _ => some actor
  | .flushAll => none

/-- The transcript may lose a delta: white space behind a tool is in the flat text and in no part. -/
theorem blank_delta_lost :
    ¬ ∀ (byKey : Str → Option Entry) (archived : List Entry) (inputs : List StreamInput)
        (actor : Actor), (∀ key entry, byKey key = some entry → entry.active = false) →
      (∀ input ∈ inputs, ∀ other ∈ input.on, NoSeparator other) →
      NoSeparator actor → bufferedOf ((streamMachine byKey archived).run inputs) actor = [] →
      Faithful (liveEntry ((streamMachine byKey archived).run inputs) actor)
        (arrivalsOf ((streamMachine byKey archived).run inputs) actor) := by
  intro hall
  have hinputs : ∀ input ∈ blankTurn, ∀ other ∈ input.on, NoSeparator other := by decide
  have hfaithful := hall (fun _ => none) [] blankTurn agent (fun _ _ h => by cases h)
    hinputs (by decide) (by decide +kernel)
  have hlost : ((liveEntry ((streamMachine (fun _ => none) []).run blankTurn) agent).parts.filterMap
      (·.textOf)).flatten ≠
        (liveEntry ((streamMachine (fun _ => none) []).run blankTurn) agent).outputText := by
    decide +kernel
  exact hlost hfaithful.texts

end TeamClu.StreamStore
