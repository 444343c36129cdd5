import TeamClu.ForStd.Machine
import TeamClu.ForStd.TreeMap
import TeamClu.Spec.TimelineEntries

/-!
# Streamed replies

The deltas of an output collect in a buffer, and a tool call or the end of the turn makes an entry of
it.  In a run of delivered envelopes (`Delivered`) the entries of a turn and its buffer are the deltas
of the turn, as long as no flushed text is one that was flushed before and a whole output is what the
turn has streamed (`Flushes`): `replies_conserved`.  Repeating a segment loses it (`segment_lost`).
An event of one agent leaves the entries and the buffer of the others alone (`Isolated`), and an idle
agent has no buffer (`KeysKept`).
-/

namespace TeamClu.Timeline

/-! ## What a run delivers -/

/-- The text of a delta. -/
def AcpInput.delta? (x : AcpInput) : Option Str :=
  match x.event with
  | .output text false => some text
  | _ => none

/-- The tool call that an event is about. -/
def AcpInput.toolID? (x : AcpInput) : Option Str :=
  match x.event with
  | .toolUse toolID _ _ _ => some toolID
  | .toolResult toolID _ _ _ => some toolID
  | _ => none

/-- What an event does to the open turn of its agent. -/
def AcpInput.turnAfter (x : AcpInput) (turn : Option Str) : Option Str :=
  match x.event with
  | .output _ false => x.turnID
  | .statusChange true => none
  | _ => turn

/-- The turn of the agent that is open after the events. -/
def openTurn (agent : Str) (xs : List AcpInput) : Option Str :=
  xs.foldl (fun turn x => if x.agentBucketKey = agent then x.turnAfter turn else turn) none

/-- Each envelope is delivered once, in turns that an idle status closes, and no two agents share a
    tool call. -/
structure Delivered (xs : List AcpInput) : Prop where
  once : xs.Pairwise fun x y => x.agentBucketKey = y.agentBucketKey → 0 < x.envelopeSequence →
    x.envelopeSequence ≠ y.envelopeSequence
  /-- A delta belongs to a turn: the open one, or a new one when none is open. -/
  turns : ∀ before x after, xs = before ++ x :: after → ∀ text ∈ x.delta?,
    ∃ turn, turn ≠ [] ∧ x.turnID = some turn ∧
      ∀ active ∈ openTurn x.agentBucketKey before, active = turn
  tools : ∀ x ∈ xs, ∀ y ∈ xs, ∀ toolID, x.toolID? = some toolID → y.toolID? = some toolID →
    x.agentBucketKey = y.agentBucketKey

/-- The deltas of a turn. -/
def deltasOf (agent turn : Str) (xs : List AcpInput) : Str :=
  xs.flatMap fun x =>
    if x.agentBucketKey = agent ∧ x.turnID = some turn then x.delta?.getD [] else []

/-- An output of the turn. -/
def isOutputOf (agent turn : Str) (e : TimelineEntry) : Bool :=
  e.eventType = .output && e.sender = agent && e.turnID = some turn

/-- What an entry contributes to the text of a turn. -/
def outputText (agent turn : Str) (e : TimelineEntry) : Str :=
  if isOutputOf agent turn e then e.text.getD [] else []

/-- The texts of the output entries of a turn, in order. -/
def outputsOf (agent turn : Str) (s : TimelineState) : Str :=
  s.entries.flatMap (outputText agent turn)

/-- The text in the buffer of a turn. -/
def bufferOf (agent turn : Str) (s : TimelineState) : Str :=
  if s.streamingTurnIDByAgent[agent]? = some turn then s.bufferedText agent else []

/-- The last output of a turn. -/
def lastOutput (s : TimelineState) (bucket : Str) (turnID : Option Str) : Str :=
  ((s.entries.reverse.find? (isCompleteOutput bucket turnID)).bind (·.text)).getD []

/-- The step flushes what it should: the text in the buffer was not flushed for its turn before, and a
    whole output is the last output of its turn and the buffer of its turn. -/
def Flushes (T : SwiftText) (s : TimelineState) (x : AcpInput) : Bool :=
  let text := s.bufferedText x.agentBucketKey
  match x.event with
  | .output whole true =>
    (text = [] || s.streamingTurnIDByAgent[x.agentBucketKey]? = x.turnID) &&
      (!x.turnID.any (· ≠ []) || whole = lastOutput s x.agentBucketKey x.turnID ++ text)
  | .toolUse _ _ _ _ | .statusChange true =>
    text = [] || !alreadyFlushed T s x.agentBucketKey (segmentTurnID s x) text
  | _ => true

/-- The step changes no entry and no buffer of another agent. -/
structure Isolated (x : AcpInput) (s s' : TimelineState) : Prop where
  entries : ∀ agent, agent ≠ x.agentBucketKey →
    s'.entries.filter (·.sender = agent) = s.entries.filter (·.sender = agent)
  texts : ∀ agent, agent ≠ x.agentBucketKey →
    s'.streamingTextByAgent[agent]? = s.streamingTextByAgent[agent]?
  models : ∀ agent, agent ≠ x.agentBucketKey →
    s'.streamingModelByAgent[agent]? = s.streamingModelByAgent[agent]?
  turns : ∀ agent, agent ≠ x.agentBucketKey →
    s'.streamingTurnIDByAgent[agent]? = s.streamingTurnIDByAgent[agent]?
  agents : ∀ agent, agent ≠ x.agentBucketKey →
    (agent ∈ s'.streamingAgentSet ↔ agent ∈ s.streamingAgentSet)

/-- The streaming maps have keys for agents that are mid-stream only. -/
structure KeysKept (s : TimelineState) : Prop where
  texts : ∀ agent, agent ∉ s.streamingAgentSet → s.streamingTextByAgent[agent]? = none
  models : ∀ agent, agent ∉ s.streamingAgentSet → s.streamingModelByAgent[agent]? = none
  turns : ∀ agent, agent ∉ s.streamingAgentSet → s.streamingTurnIDByAgent[agent]? = none

/-- The reducer on the events of the agents. -/
def agentReducer (T : SwiftText) : Machine TimelineState AcpInput where
  init := {}
  step s x := apply T (.acp x) s

/-! ## Buffers -/

@[simp] theorem clearStreaming_entries (s : TimelineState) (bucket : Str) :
    (s.clearStreaming bucket).entries = s.entries := rfl

@[simp] theorem clearStreaming_pending (s : TimelineState) (bucket : Str) :
    (s.clearStreaming bucket).pendingPersistedReplies = s.pendingPersistedReplies := rfl

@[simp] theorem clearStreaming_text (s : TimelineState) (bucket agent : Str) :
    (s.clearStreaming bucket).streamingTextByAgent[agent]? =
      if bucket = agent then none else s.streamingTextByAgent[agent]? := TreeMap.get_erase _ _ _

@[simp] theorem clearStreaming_model (s : TimelineState) (bucket agent : Str) :
    (s.clearStreaming bucket).streamingModelByAgent[agent]? =
      if bucket = agent then none else s.streamingModelByAgent[agent]? := TreeMap.get_erase _ _ _

@[simp] theorem clearStreaming_turn (s : TimelineState) (bucket agent : Str) :
    (s.clearStreaming bucket).streamingTurnIDByAgent[agent]? =
      if bucket = agent then none else s.streamingTurnIDByAgent[agent]? := TreeMap.get_erase _ _ _

@[simp] theorem mem_clearStreaming (s : TimelineState) (bucket agent : Str) :
    agent ∈ (s.clearStreaming bucket).streamingAgentSet ↔
      agent ≠ bucket ∧ agent ∈ s.streamingAgentSet := Finset.mem_erase

/-- An agent whose stream was cleared has no text. -/
@[simp] theorem bufferedText_clearStreaming (s : TimelineState) (bucket : Str) :
    (s.clearStreaming bucket).bufferedText bucket = [] := by
  simp [TimelineState.bufferedText]

/-- With the keys kept, what a map holds is what is mid-stream. -/
theorem KeysKept.bufferedText {s : TimelineState} (h : KeysKept s) (agent : Str) :
    s.bufferedText agent = s.streamingTextByAgent[agent]?.getD [] := by
  unfold TimelineState.bufferedText
  split
  · rfl
  · next hmem => rw [h.texts agent hmem]; rfl

theorem KeysKept.clearStreaming {s : TimelineState} (h : KeysKept s) (bucket : Str) :
    KeysKept (s.clearStreaming bucket) := by
  have hmem : ∀ agent, agent ∉ (s.clearStreaming bucket).streamingAgentSet → bucket ≠ agent →
      agent ∉ s.streamingAgentSet := by
    intro agent hout hne hin
    exact hout ((mem_clearStreaming s bucket agent).mpr ⟨hne.symm, hin⟩)
  refine ⟨fun agent hout => ?_, fun agent hout => ?_, fun agent hout => ?_⟩
  · rw [clearStreaming_text]
    split
    · rfl
    · next hne => exact h.texts agent (hmem agent hout hne)
  · rw [clearStreaming_model]
    split
    · rfl
    · next hne => exact h.models agent (hmem agent hout hne)
  · rw [clearStreaming_turn]
    split
    · rfl
    · next hne => exact h.turns agent (hmem agent hout hne)

/-- An agent whose maps change is mid-stream. -/
theorem KeysKept.insert {s : TimelineState} (h : KeysKept s) {bucket text : Str}
    {models turns : Std.ExtTreeMap Str Str}
    (hmodels : ∀ agent, agent ≠ bucket → models[agent]? = s.streamingModelByAgent[agent]?)
    (hturns : ∀ agent, agent ≠ bucket → turns[agent]? = s.streamingTurnIDByAgent[agent]?) :
    KeysKept { s with
      streamingAgentSet := insert bucket s.streamingAgentSet
      streamingTextByAgent := s.streamingTextByAgent.insert bucket text
      streamingModelByAgent := models
      streamingTurnIDByAgent := turns } := by
  have hout : ∀ agent, agent ∉ Insert.insert bucket s.streamingAgentSet →
      agent ≠ bucket ∧ agent ∉ s.streamingAgentSet := by
    intro agent hagent
    rwa [Finset.mem_insert, not_or] at hagent
  refine ⟨fun agent hagent => ?_, fun agent hagent => ?_, fun agent hagent => ?_⟩
  · obtain ⟨hne, hmem⟩ := hout agent hagent
    simp only [TreeMap.get_insert, if_neg hne.symm]
    exact h.texts agent hmem
  · obtain ⟨hne, hmem⟩ := hout agent hagent
    exact (hmodels agent hne).trans (h.models agent hmem)
  · obtain ⟨hne, hmem⟩ := hout agent hagent
    exact (hturns agent hne).trans (h.turns agent hmem)

/-- The maps do not depend on the entries. -/
theorem KeysKept.setEntries {s : TimelineState} (h : KeysKept s) (entries : List TimelineEntry) :
    KeysKept { s with entries } := ⟨h.texts, h.models, h.turns⟩

/-! ## Changes of the entries -/

/-- What a change of an entry keeps. -/
def Kept (e e' : TimelineEntry) : Prop :=
  e'.sequence = e.sequence ∧ e'.sender = e.sender ∧ e'.eventType = e.eventType ∧
    e'.toolID = e.toolID ∧ (e.isComplete = true → e'.isComplete = true)

/-- An entry that an event makes. -/
def Fresh (x : AcpInput) (e : TimelineEntry) : Prop :=
  e.sender = x.agentBucketKey ∧ (0 < e.sequence → e.sequence = x.envelopeSequence) ∧
    (e.eventType = .output → e.isComplete = true) ∧
    (e.eventType = .toolUse → ∀ toolID ∈ e.toolID, x.toolID? = some toolID)

/-- An entry comes from one before the event, or from the event. -/
def Made (x : AcpInput) (es : List TimelineEntry) (e' : TimelineEntry) : Prop :=
  (∃ e ∈ es, Kept e e') ∨ Fresh x e'

/-- What an event does to the entries, whatever it is. -/
def EntriesStep (x : AcpInput) (es es' : List TimelineEntry) : Prop :=
  (∀ e' ∈ es', Made x es e') ∧ ∀ agent, agent ≠ x.agentBucketKey →
    es'.filter (·.sender = agent) = es.filter (·.sender = agent)

/-- An event changes entries of its agent and adds some, which all satisfy `Q`. -/
def Change (x : AcpInput) (Q : TimelineEntry → Prop) (es es' : List TimelineEntry) : Prop :=
  ∃ kept added, es' = kept ++ added ∧
    List.Forall₂ (fun e e' => e' = e ∨ (e.sender = x.agentBucketKey ∧ Kept e e' ∧ Q e)) es kept ∧
    ∀ e ∈ added, Fresh x e ∧ Q e

/-- An entry that is no output. -/
def NoOutput (e : TimelineEntry) : Prop := e.eventType ≠ .output

section Change

variable {x : AcpInput} {Q : TimelineEntry → Prop} {es es' : List TimelineEntry}

theorem Change.refl (x : AcpInput) (Q : TimelineEntry → Prop) (es : List TimelineEntry) :
    Change x Q es es :=
  ⟨es, [], (List.append_nil es).symm, List.forall₂_same.mpr fun _ _ => Or.inl rfl,
    fun _ h => absurd h List.not_mem_nil⟩

/-- An entry is added. -/
theorem Change.append {e : TimelineEntry} (he : Fresh x e) (hQ : Q e) : Change x Q es (es ++ [e]) :=
  ⟨es, [e], rfl, List.forall₂_same.mpr fun _ _ => Or.inl rfl, by simpa using ⟨he, hQ⟩⟩

/-- The last entry that fits is changed. -/
theorem Change.updateLast {p : TimelineEntry → Bool} {f : TimelineEntry → TimelineEntry}
    (hany : es.any p = true)
    (hf : ∀ e ∈ es, p e = true → e.sender = x.agentBucketKey ∧ Kept e (f e) ∧ Q e) :
    Change x Q es (updateLast p f es) := by
  obtain ⟨before, e, after, rfl, hp, -, heq⟩ := updateLast_split (f := f) hany
  refine ⟨before ++ f e :: after, [], by rw [heq, List.append_nil], ?_,
    fun _ h => absurd h List.not_mem_nil⟩
  have hrefl : ∀ l : List TimelineEntry, List.Forall₂
      (fun e e' => e' = e ∨ (e.sender = x.agentBucketKey ∧ Kept e e' ∧ Q e)) l l :=
    fun l => List.forall₂_same.mpr fun _ _ => Or.inl rfl
  exact List.rel_append (hrefl before) (.cons (Or.inr (hf e (by simp) hp)) (hrefl after))

/-- All entries are changed in the same way. -/
theorem Change.map {f : TimelineEntry → TimelineEntry}
    (hf : ∀ e ∈ es, f e = e ∨ (e.sender = x.agentBucketKey ∧ Kept e (f e) ∧ Q e)) :
    Change x Q es (es.map f) := by
  refine ⟨es.map f, [], (List.append_nil _).symm, ?_, fun _ h => absurd h List.not_mem_nil⟩
  rw [List.forall₂_map_right_iff]
  exact List.forall₂_same.mpr hf

/-- An entry comes from an entry before the event, or from the event. -/
theorem Change.made (h : Change x Q es es') : ∀ e' ∈ es', Made x es e' := by
  intro e' he'
  obtain ⟨kept, added, rfl, hkept, hadded⟩ := h
  rcases List.mem_append.mp he' with he' | he'
  · obtain ⟨i, hi, rfl⟩ := List.getElem_of_mem he'
    have hi' : i < es.length := hkept.length_eq ▸ hi
    refine Or.inl ⟨es[i], List.getElem_mem hi', ?_⟩
    rcases (List.forall₂_iff_get.mp hkept).2 i hi' hi with heq | ⟨-, hk, -⟩
    · simp only [List.get_eq_getElem] at heq
      rw [heq]
      exact ⟨rfl, rfl, rfl, rfl, id⟩
    · exact hk
  · exact Or.inr (hadded e' he').1

/-- The entries of the other agents stay. -/
theorem Change.filter_sender (h : Change x Q es es') {agent : Str}
    (hagent : agent ≠ x.agentBucketKey) :
    es'.filter (·.sender = agent) = es.filter (·.sender = agent) := by
  obtain ⟨kept, added, rfl, hkept, hadded⟩ := h
  have hnone : added.filter (·.sender = agent) = [] := by
    rw [List.filter_eq_nil_iff]
    intro e he
    rw [(hadded e he).1.1]
    simpa using hagent.symm
  rw [List.filter_append, hnone, List.append_nil]
  induction hkept with
  | nil => rfl
  | cons hrel _ ih =>
    rcases hrel with rfl | ⟨hsender, hk, -⟩
    · rw [List.filter_cons, List.filter_cons, ih]
    · rw [List.filter_cons_of_neg, List.filter_cons_of_neg, ih]
      · simpa [hsender] using hagent.symm
      · simpa [hk.2.1, hsender] using hagent.symm

theorem Change.step (h : Change x Q es es') : EntriesStep x es es' :=
  ⟨h.made, fun _ => h.filter_sender⟩

/-- One change after another. -/
theorem EntriesStep.trans {es'' : List TimelineEntry} (h : EntriesStep x es es')
    (h' : EntriesStep x es' es'') : EntriesStep x es es'' := by
  refine ⟨fun e'' he'' => ?_, fun agent hagent => (h'.2 agent hagent).trans (h.2 agent hagent)⟩
  rcases h'.1 e'' he'' with ⟨e', he', hk'⟩ | hfresh
  · obtain ⟨hseq', hsender', htype', htool', hcomplete'⟩ := hk'
    rcases h.1 e' he' with ⟨e, he, hseq, hsender, htype, htool, hcomplete⟩ | hfresh
    · exact Or.inl ⟨e, he, hseq'.trans hseq, hsender'.trans hsender, htype'.trans htype,
        htool'.trans htool, fun hc => hcomplete' (hcomplete hc)⟩
    · refine Or.inr ⟨hsender'.trans hfresh.1, ?_, ?_, ?_⟩
      · rw [hseq']
        exact hfresh.2.1
      · exact fun ht => hcomplete' (hfresh.2.2.1 (htype' ▸ ht))
      · rw [htype', htool']
        exact hfresh.2.2.2
  · exact Or.inr hfresh

/-- A change of entries that are no outputs keeps the outputs. -/
theorem Change.outputs (h : Change x NoOutput es es') (agent turn : Str) :
    es'.flatMap (outputText agent turn) = es.flatMap (outputText agent turn) := by
  obtain ⟨kept, added, rfl, hkept, hadded⟩ := h
  have hsilent : ∀ e : TimelineEntry, e.eventType ≠ .output → outputText agent turn e = [] := by
    intro e he
    simp [outputText, isOutputOf, he]
  have hnone : added.flatMap (outputText agent turn) = [] :=
    List.flatMap_eq_nil_iff.mpr fun e he => hsilent e (hadded e he).2
  rw [List.flatMap_append, hnone, List.append_nil]
  induction hkept with
  | nil => rfl
  | cons hrel _ ih =>
    rw [List.flatMap_cons, List.flatMap_cons, ih]
    rcases hrel with rfl | ⟨-, hk, hQ⟩
    · rfl
    · rw [hsilent _ hQ, hsilent _ (hk.2.2.1 ▸ hQ)]

end Change

/-! ## What an event does -/

/-- What a turn has streamed: its entries and its buffer. -/
def streamed (agent turn : Str) (s : TimelineState) : Str :=
  outputsOf agent turn s ++ bufferOf agent turn s

/-- What an event of an agent does to the timeline. -/
structure EventSpec (x : AcpInput) (s s' : TimelineState) : Prop where
  entries : EntriesStep x s.entries s'.entries
  texts : ∀ agent, agent ≠ x.agentBucketKey →
    s'.streamingTextByAgent[agent]? = s.streamingTextByAgent[agent]?
  models : ∀ agent, agent ≠ x.agentBucketKey →
    s'.streamingModelByAgent[agent]? = s.streamingModelByAgent[agent]?
  turns : ∀ agent, agent ≠ x.agentBucketKey →
    s'.streamingTurnIDByAgent[agent]? = s.streamingTurnIDByAgent[agent]?
  agents : ∀ agent, agent ≠ x.agentBucketKey →
    (agent ∈ s'.streamingAgentSet ↔ agent ∈ s.streamingAgentSet)
  keys : KeysKept s'
  pending : s'.pendingPersistedReplies = s.pendingPersistedReplies
  /-- The buffer of the agent is empty, or it belongs to the turn of the delta, or it stays. -/
  buffer : s'.bufferedText x.agentBucketKey = [] ∨
    (s'.streamingTurnIDByAgent[x.agentBucketKey]? = x.turnID ∧ x.delta?.isSome = true) ∨
    (s'.bufferedText x.agentBucketKey = s.bufferedText x.agentBucketKey ∧
      s'.streamingTurnIDByAgent[x.agentBucketKey]? = s.streamingTurnIDByAgent[x.agentBucketKey]? ∧
      ∀ turn, x.turnAfter turn = turn)
  /-- The agent is mid-stream by a delta, or because it was. -/
  midStream : x.agentBucketKey ∈ s'.streamingAgentSet → x.delta?.isSome = true ∨
    (x.agentBucketKey ∈ s.streamingAgentSet ∧ ∀ turn, x.turnAfter turn = turn)
  /-- The text of the delta is added to its turn. -/
  conserved : ∀ turn, turn ≠ [] → streamed x.agentBucketKey turn s' =
    streamed x.agentBucketKey turn s ++ if x.turnID = some turn then x.delta?.getD [] else []

section Events

variable {x : AcpInput} {s s₁ : TimelineState}

/-- Nothing happens. -/
theorem EventSpec.refl (hk : KeysKept s) (hx : x.delta? = none)
    (hturn : ∀ turn, x.turnAfter turn = turn) : EventSpec x s s where
  entries := (Change.refl x (fun _ => True) _).step
  texts := fun _ _ => rfl
  models := fun _ _ => rfl
  turns := fun _ _ => rfl
  agents := fun _ _ => Iff.rfl
  keys := hk
  pending := rfl
  buffer := Or.inr (Or.inr ⟨rfl, rfl, hturn⟩)
  midStream := fun hmem => Or.inr ⟨hmem, hturn⟩
  conserved := fun _ _ => by simp [hx]

/-- Then entries are changed that are no outputs. -/
theorem EventSpec.setEntries (h : EventSpec x s s₁) {entries : List TimelineEntry}
    (hc : Change x NoOutput s₁.entries entries) : EventSpec x s { s₁ with entries } where
  entries := h.entries.trans hc.step
  texts := h.texts
  models := h.models
  turns := h.turns
  agents := h.agents
  keys := h.keys.setEntries entries
  pending := h.pending
  buffer := h.buffer
  midStream := h.midStream
  conserved := fun turn hturn => by
    rw [← h.conserved turn hturn]
    exact congrArg (· ++ _) (hc.outputs x.agentBucketKey turn)

/-- What a turn has streamed, after its agent's stream was cleared. -/
private theorem streamed_clearStreaming (s : TimelineState) (agent turn : Str) :
    streamed agent turn (s.clearStreaming agent) = outputsOf agent turn s := by
  simp [streamed, outputsOf, bufferOf]

/-- The stream of the agent ends, and its text is in the entries. -/
theorem EventSpec.clear (hk : KeysKept s) {entries : List TimelineEntry}
    (he : EntriesStep x s.entries entries) (hx : x.delta? = none)
    (ho : ∀ turn, turn ≠ [] → entries.flatMap (outputText x.agentBucketKey turn) =
      streamed x.agentBucketKey turn s) :
    EventSpec x s ({ s with entries }.clearStreaming x.agentBucketKey) where
  entries := he
  texts := fun agent hne => by
    rw [clearStreaming_text, if_neg hne.symm]
  models := fun agent hne => by
    rw [clearStreaming_model, if_neg hne.symm]
  turns := fun agent hne => by
    rw [clearStreaming_turn, if_neg hne.symm]
  agents := fun agent hne => by
    rw [mem_clearStreaming]
    exact and_iff_right hne
  keys := (hk.setEntries entries).clearStreaming _
  pending := rfl
  buffer := Or.inl (bufferedText_clearStreaming _ _)
  midStream := fun hmem => absurd rfl ((mem_clearStreaming _ _ _).mp hmem).1
  conserved := fun turn hturn => by
    rw [streamed_clearStreaming, hx, ← ho turn hturn]
    simp [outputsOf]

/-- The segment in the buffer becomes an entry of its turn. -/
theorem appendSegment_spec (T : SwiftText) {sequence : Nat}
    (hopen : s.bufferedText x.agentBucketKey ≠ [] →
      ∃ turn, s.streamingTurnIDByAgent[x.agentBucketKey]? = some turn)
    (hflush : s.bufferedText x.agentBucketKey = [] ∨ alreadyFlushed T s x.agentBucketKey
      (segmentTurnID s x) (s.bufferedText x.agentBucketKey) = false)
    (hseq : 0 < sequence → sequence = x.envelopeSequence) :
    ∃ entries, appendSegment T x sequence s = { s with entries } ∧
      EntriesStep x s.entries entries ∧ ∀ turn, turn ≠ [] →
        entries.flatMap (outputText x.agentBucketKey turn) = streamed x.agentBucketKey turn s := by
  unfold appendSegment
  simp only
  by_cases htext : s.bufferedText x.agentBucketKey = []
  · rw [if_pos (by simp [htext])]
    refine ⟨s.entries, rfl, (Change.refl x (fun _ => True) _).step, fun turn _ => ?_⟩
    simp [streamed, outputsOf, bufferOf, htext]
  · obtain ⟨active, hactive⟩ := hopen htext
    have hsegment : segmentTurnID s x = some active := by simp [segmentTurnID, hactive]
    rw [if_neg (by simp [htext, hflush.resolve_left htext])]
    refine ⟨_, rfl, (Change.append (Q := fun _ => True) ⟨rfl, hseq, fun _ => rfl, ?_⟩ trivial).step,
      fun turn _ => ?_⟩
    · exact fun h => (by cases h)
    · rw [List.flatMap_append, List.flatMap_singleton, streamed, outputsOf, bufferOf, hactive]
      congr 1
      by_cases hturn : active = turn
      · simp [outputText, isOutputOf, TimelineEntry.sender, AcpInput.entry, hsegment, hturn]
      · simp [outputText, isOutputOf, hsegment, hturn]

/-- Outputs are complete in the entries that the reducer makes. -/
def OutputsComplete (s : TimelineState) : Prop :=
  ∀ e ∈ s.entries, e.eventType = .output → e.isComplete = true

theorem not_isIncompleteOutput (hs : OutputsComplete s) (bucket : Str) :
    ∀ e ∈ s.entries, isIncompleteOutput bucket e = false := by
  intro e he
  rw [Bool.eq_false_iff]
  intro h
  simp only [isIncompleteOutput, Bool.and_eq_true, decide_eq_true_eq, Bool.not_eq_true'] at h
  rw [hs e he h.1.1] at h
  exact absurd h.1.2 (by simp)

/-- The delta starts another turn than the one that streams. -/
def AcpInput.startsOther (x : AcpInput) (s : TimelineState) : Bool :=
  x.turnID.any fun t => t ≠ [] &&
    s.streamingTurnIDByAgent[x.agentBucketKey]?.any fun active => active ≠ [] && active ≠ t

/-- The stream that a delta goes on with. -/
def AcpInput.continued (x : AcpInput) (s : TimelineState) : TimelineState :=
  if x.startsOther s then s.clearStreaming x.agentBucketKey else s

theorem continued_entries (x : AcpInput) (s : TimelineState) :
    (x.continued s).entries = s.entries := by
  unfold AcpInput.continued
  split <;> rfl

/-- Where all outputs are complete, a delta changes the buffer only. -/
theorem applyDelta_eq (hs : OutputsComplete s) (text : Str) :
    applyDelta x text s = ({ x.continued s with
      streamingAgentSet := insert x.agentBucketKey (x.continued s).streamingAgentSet
      streamingTextByAgent := (x.continued s).streamingTextByAgent.insert x.agentBucketKey
        ((x.continued s).streamingTextByAgent[x.agentBucketKey]?.getD [] ++ text)
      streamingModelByAgent := match x.model? with
        | none => (x.continued s).streamingModelByAgent
        | some model => (x.continued s).streamingModelByAgent.insert x.agentBucketKey model
      streamingTurnIDByAgent := match x.turnID with
        | none => (x.continued s).streamingTurnIDByAgent
        | some t => if t = [] then (x.continued s).streamingTurnIDByAgent
          else (x.continued s).streamingTurnIDByAgent.insert x.agentBucketKey t },
      .streamingBufferOnly) := by
  have hfind : (x.continued s).entries.reverse.find? (isIncompleteOutput x.agentBucketKey) = none := by
    rw [List.find?_eq_none]
    intro e he
    rw [continued_entries] at he
    simpa using not_isIncompleteOutput hs x.agentBucketKey e (List.mem_reverse.mp he)
  have hsame : (if (x.turnID.any fun t => t ≠ [] && s.streamingTurnIDByAgent[x.agentBucketKey]?.any
      fun active => active ≠ [] && active ≠ t) then s.clearStreaming x.agentBucketKey else s) =
      x.continued s := rfl
  unfold applyDelta
  simp only [hsame, hfind, ite_self]
  rfl

/-- A delta is added to the buffer of its turn. -/
theorem delta_spec (hk : KeysKept s) (hs : OutputsComplete s) {text turn : Str}
    (hevent : x.event = .output text false) (hturn : x.turnID = some turn) (hne : turn ≠ [])
    (hopen : s.bufferedText x.agentBucketKey ≠ [] →
      s.streamingTurnIDByAgent[x.agentBucketKey]? = some turn) :
    EventSpec x s (applyDelta x text s).1 := by
  -- the stream that goes on, cleared when it was the one of another turn
  obtain ⟨s₁, hs₁, heq⟩ : ∃ s₁ : TimelineState,
      (s₁ = s ∨ (s₁ = s.clearStreaming x.agentBucketKey ∧ s.bufferedText x.agentBucketKey = [])) ∧
      (applyDelta x text s).1 = { s₁ with
        streamingAgentSet := insert x.agentBucketKey s₁.streamingAgentSet
        streamingTextByAgent := s₁.streamingTextByAgent.insert x.agentBucketKey
          (s₁.streamingTextByAgent[x.agentBucketKey]?.getD [] ++ text)
        streamingModelByAgent := match x.model? with
          | none => s₁.streamingModelByAgent
          | some model => s₁.streamingModelByAgent.insert x.agentBucketKey model
        streamingTurnIDByAgent := s₁.streamingTurnIDByAgent.insert x.agentBucketKey turn } := by
    refine ⟨x.continued s, ?_, ?_⟩
    · unfold AcpInput.continued
      split
      · next hother =>
        refine Or.inr ⟨rfl, ?_⟩
        by_contra htext
        simp [AcpInput.startsOther, hturn, hopen htext] at hother
      · exact Or.inl rfl
    · rw [applyDelta_eq hs]
      simp only [hturn, if_neg hne]
  have hk₁ : KeysKept s₁ := by
    rcases hs₁ with rfl | ⟨rfl, -⟩
    · exact hk
    · exact hk.clearStreaming _
  have htext₁ : s₁.streamingTextByAgent[x.agentBucketKey]?.getD [] = s.bufferedText x.agentBucketKey := by
    rw [← hk₁.bufferedText]
    rcases hs₁ with rfl | ⟨rfl, htext⟩
    · rfl
    · rw [bufferedText_clearStreaming, htext]
  have hentries : s₁.entries = s.entries := by
    rcases hs₁ with rfl | ⟨rfl, -⟩ <;> rfl
  have hothers : ∀ agent, agent ≠ x.agentBucketKey →
      s₁.streamingTextByAgent[agent]? = s.streamingTextByAgent[agent]? ∧
      s₁.streamingModelByAgent[agent]? = s.streamingModelByAgent[agent]? ∧
      s₁.streamingTurnIDByAgent[agent]? = s.streamingTurnIDByAgent[agent]? ∧
      (agent ∈ s₁.streamingAgentSet ↔ agent ∈ s.streamingAgentSet) := by
    intro agent hagent
    rcases hs₁ with rfl | ⟨rfl, -⟩
    · exact ⟨rfl, rfl, rfl, Iff.rfl⟩
    · simp [hagent, hagent.symm]
  have hmodel : ∀ agent, agent ≠ x.agentBucketKey → (match x.model? with
      | none => s₁.streamingModelByAgent
      | some model => s₁.streamingModelByAgent.insert x.agentBucketKey model)[agent]? =
        s₁.streamingModelByAgent[agent]? := by
    intro agent hagent
    split
    · rfl
    · rw [TreeMap.get_insert, if_neg hagent.symm]
  rw [heq]
  refine ⟨?_, fun agent hagent => ?_, fun agent hagent => ?_, fun agent hagent => ?_,
    fun agent hagent => ?_, ?_, ?_, ?_, fun _ => ?_, fun turn' _ => ?_⟩
  · simp only [hentries]
    exact (Change.refl x (fun _ => True) _).step
  · rw [← (hothers agent hagent).1]
    simp [TreeMap.get_insert, hagent.symm]
  · rw [← (hothers agent hagent).2.1]
    exact hmodel agent hagent
  · rw [← (hothers agent hagent).2.2.1]
    simp [TreeMap.get_insert, hagent.symm]
  · rw [← (hothers agent hagent).2.2.2]
    simp [hagent]
  · refine hk₁.insert hmodel fun agent hagent => ?_
    rw [TreeMap.get_insert, if_neg hagent.symm]
  · rcases hs₁ with rfl | ⟨rfl, -⟩ <;> rfl
  · refine Or.inr (Or.inl ⟨?_, ?_⟩)
    · simp [hturn]
    · simp [AcpInput.delta?, hevent]
  · simp [AcpInput.delta?, hevent]
  · -- the buffer has grown by the text of the delta
    have hdelta : x.delta? = some text := by simp [AcpInput.delta?, hevent]
    rw [streamed, streamed, List.append_assoc, hdelta, hturn, Option.getD_some]
    have hout : outputsOf x.agentBucketKey turn' { s₁ with
        streamingAgentSet := insert x.agentBucketKey s₁.streamingAgentSet
        streamingTextByAgent := s₁.streamingTextByAgent.insert x.agentBucketKey
          (s₁.streamingTextByAgent[x.agentBucketKey]?.getD [] ++ text)
        streamingModelByAgent := match x.model? with
          | none => s₁.streamingModelByAgent
          | some model => s₁.streamingModelByAgent.insert x.agentBucketKey model
        streamingTurnIDByAgent := s₁.streamingTurnIDByAgent.insert x.agentBucketKey turn } =
        outputsOf x.agentBucketKey turn' s := by
      simp only [outputsOf, hentries]
    rw [hout, bufferOf, bufferOf]
    congr 1
    simp only [TreeMap.get_insert, if_true, TimelineState.bufferedText, Finset.mem_insert, true_or,
      Option.getD_some, htext₁, Option.some.injEq]
    by_cases htext : s.bufferedText x.agentBucketKey = []
    · rw [TimelineState.bufferedText] at htext
      simp [htext]
    · simp only [hopen htext, Option.some.injEq]
      by_cases hsame : turn = turn' <;> simp [hsame]

/-- The turn of the buffer, where a whole output may end the stream. -/
private theorem bufferOf_eq {turnID : Option Str}
    (hb : s.bufferedText x.agentBucketKey = [] ∨
      s.streamingTurnIDByAgent[x.agentBucketKey]? = turnID) (turn : Str) :
    bufferOf x.agentBucketKey turn s =
      if turnID = some turn then s.bufferedText x.agentBucketKey else [] := by
  rw [bufferOf]
  rcases hb with hb | hb
  · simp [hb]
  · simp only [hb]

private theorem outputText_of_turn {e : TimelineEntry} {agent turn : Str}
    (h : e.turnID ≠ some turn) : outputText agent turn e = [] := by
  simp [outputText, isOutputOf, h]

/-- A whole output that repeats the last one of its turn, and the text in the buffer. -/
theorem repeated_spec (hk : KeysKept s) (hs : OutputsComplete s) {whole turn : Str}
    {f : TimelineEntry → TimelineEntry} (hx : x.delta? = none)
    (hf : ∀ e, Kept e (f e) ∧ (f e).turnID = e.turnID ∧ (f e).text = some whole)
    (hany : s.entries.any (isCompleteOutput x.agentBucketKey (some turn)) = true)
    (hb : s.bufferedText x.agentBucketKey = [] ∨
      s.streamingTurnIDByAgent[x.agentBucketKey]? = some turn)
    (hwhole : whole = lastOutput s x.agentBucketKey (some turn) ++ s.bufferedText x.agentBucketKey) :
    EventSpec x s (TimelineState.clearStreaming
      { s with
        entries := updateLast (isCompleteOutput x.agentBucketKey (some turn)) f s.entries }
      x.agentBucketKey) := by
  refine EventSpec.clear hk (Change.updateLast (Q := fun _ => True) hany fun e _ hp => ?_).step hx
    fun turn' _ => ?_
  · simp only [isCompleteOutput, Bool.and_eq_true, decide_eq_true_eq] at hp
    exact ⟨hp.2, (hf e).1, trivial⟩
  · obtain ⟨before, e, after, hsplit, hp, hafter, heq⟩ := updateLast_split (f := f) hany
    have hp' := hp
    simp only [isCompleteOutput, Bool.and_eq_true, decide_eq_true_eq] at hp'
    rw [heq, streamed, outputsOf, hsplit, bufferOf_eq hb]
    simp only [List.flatMap_append, List.flatMap_cons, List.append_assoc]
    by_cases hturn : turn = turn'
    · subst hturn
      -- the last output of the turn is the changed one
      have hnone : after.flatMap (outputText x.agentBucketKey turn) = [] := by
        rw [List.flatMap_eq_nil_iff]
        intro e' he'
        have hmem : e' ∈ s.entries := by simp [hsplit, he']
        have hno := hafter e' he'
        rw [outputText, if_neg]
        intro hout
        simp only [isOutputOf, Bool.and_eq_true, decide_eq_true_eq] at hout
        simp [isCompleteOutput, hout, hs e' hmem hout.1.1] at hno
      have hlast : lastOutput s x.agentBucketKey (some turn) = e.text.getD [] := by
        have hfind : after.reverse.find? (isCompleteOutput x.agentBucketKey (some turn)) = none := by
          rw [List.find?_eq_none]
          intro e' he'
          simp [hafter e' (List.mem_reverse.mp he')]
        rw [lastOutput, hsplit, List.reverse_append, List.reverse_cons, List.append_assoc,
          List.find?_append, hfind, Option.none_or, List.singleton_append, List.find?_cons_of_pos hp]
        rfl
      have hold : outputText x.agentBucketKey turn e = e.text.getD [] := by
        rw [outputText, if_pos]
        simp [isOutputOf, hp']
      have hnew : outputText x.agentBucketKey turn (f e) = whole := by
        rw [outputText, if_pos, (hf e).2.2, Option.getD_some]
        simp [isOutputOf, (hf e).1.2.2.1, (hf e).1.2.1, (hf e).2.1, hp']
      rw [hnone, hold, hnew, if_pos rfl, hwhole, hlast]
      simp
    · have hne : (some turn : Option Str) ≠ some turn' := fun h => hturn (Option.some.inj h)
      rw [if_neg hne, outputText_of_turn ((hf e).2.1.trans hp'.1.2 ▸ hne),
        outputText_of_turn (hp'.1.2 ▸ hne)]
      simp

/-- A whole output of a turn that has none is what the buffer holds. -/
theorem complete_spec (hk : KeysKept s) (hs : OutputsComplete s) {whole : Str} (hx : x.delta? = none)
    (hb : s.bufferedText x.agentBucketKey = [] ∨
      s.streamingTurnIDByAgent[x.agentBucketKey]? = x.turnID)
    (hwhole : ∀ turn, turn ≠ [] → x.turnID = some turn → whole = s.bufferedText x.agentBucketKey) :
    EventSpec x s (applyComplete x whole s).1 := by
  have hnone : s.entries.any (isIncompleteOutput x.agentBucketKey) = false := by
    rw [List.any_eq_false]
    intro e he
    simp [not_isIncompleteOutput hs x.agentBucketKey e he]
  have heq : (applyComplete x whole s).1 = ({ s with entries := s.entries ++ [{ x.entry .output with
      text := some whole, model := x.model?, isComplete := true
      turnID := x.turnID }] }.clearStreaming x.agentBucketKey) := by
    unfold applyComplete
    simp only [hnone, Bool.false_eq_true, if_false]
  rw [heq]
  refine EventSpec.clear hk (Change.append (Q := fun _ => True) ⟨rfl, fun _ => rfl, fun _ => rfl, ?_⟩
    trivial).step hx fun turn hne => ?_
  · exact fun h => (by cases h)
  · rw [List.flatMap_append, List.flatMap_singleton, streamed, outputsOf, bufferOf_eq hb]
    congr 1
    by_cases hturn : x.turnID = some turn
    · rw [if_pos hturn, ← hwhole turn hne hturn]
      simp [outputText, isOutputOf, TimelineEntry.sender, AcpInput.entry, hturn]
    · rw [if_neg hturn]
      exact outputText_of_turn hturn

/-- Thoughts. -/
theorem thinking_change (text : Str) :
    ∃ entries, applyThinking x text s = { s with entries } ∧ Change x NoOutput s.entries entries := by
  have hnew : Change x NoOutput s.entries (s.entries ++ [{ x.entry .thinking with
      text := some text, model := x.model?, turnID := x.turnID }]) :=
    Change.append ⟨rfl, fun _ => rfl, fun h => (by cases h), fun h => (by cases h)⟩
      (fun h => (by cases h))
  unfold applyThinking
  simp only
  split
  · next e he =>
    split
    · next hp =>
      simp only [Bool.and_eq_true, decide_eq_true_eq] at hp
      have hne : s.entries ≠ [] := List.ne_nil_of_mem (List.mem_of_getLast? he)
      have hsplit : s.entries = s.entries.dropLast ++ [e] := by
        rw [List.getLast?_eq_some_getLast hne, Option.some.injEq] at he
        rw [← he, List.dropLast_append_getLast]
      refine ⟨_, rfl, _, [], (List.append_nil _).symm, ?_, fun _ h => absurd h List.not_mem_nil⟩
      have hrefl : List.Forall₂ (fun e e' => e' = e ∨
          (e.sender = x.agentBucketKey ∧ Kept e e' ∧ NoOutput e)) s.entries.dropLast
          s.entries.dropLast := List.forall₂_same.mpr fun _ _ => Or.inl rfl
      conv => lhs; rw [hsplit]
      refine List.rel_append hrefl (.cons (Or.inr ⟨hp.2, ⟨rfl, rfl, rfl, rfl, id⟩, ?_⟩) .nil)
      rw [NoOutput, hp.1]
      exact fun h => (by cases h)
    · exact ⟨_, rfl, hnew⟩
  · exact ⟨_, rfl, hnew⟩

/-- The rows of a tool call are those of its agent. -/
def ToolsOwned (x : AcpInput) (s : TimelineState) : Prop :=
  ∀ e ∈ s.entries, e.eventType = .toolUse → ∀ toolID ∈ e.toolID, x.toolID? = some toolID →
    e.sender = x.agentBucketKey

/-- A change of the row of a tool call. -/
private theorem toolRow_change {toolID : Str} (hown : ToolsOwned x s) (htool : x.toolID? = some toolID)
    {f : TimelineEntry → TimelineEntry} (hf : ∀ e, Kept e (f e))
    (hany : s.entries.any (isToolUse toolID) = true) :
    Change x NoOutput s.entries (updateLast (isToolUse toolID) f s.entries) := by
  refine Change.updateLast hany fun e he hp => ?_
  simp only [isToolUse, Bool.and_eq_true, decide_eq_true_eq] at hp
  refine ⟨hown e he hp.1 toolID hp.2 htool, hf e, ?_⟩
  rw [NoOutput, hp.1]
  exact fun h => (by cases h)

/-- A tool call: the segment before it is flushed, and its row is made. -/
private theorem toolUse_spec (T : SwiftText) (hk : KeysKept s) (hown : ToolsOwned x s)
    {toolID description toolName : Str} {content : List (Option Diff)}
    (hevent : x.event = .toolUse toolID description toolName content)
    (hopen : s.bufferedText x.agentBucketKey ≠ [] →
      ∃ turn, s.streamingTurnIDByAgent[x.agentBucketKey]? = some turn)
    (hflush : Flushes T s x = true) :
    EventSpec x s (applyToolUse T x toolID description toolName content s) := by
  have hx : x.delta? = none := by simp [AcpInput.delta?, hevent]
  have htool : x.toolID? = some toolID := by simp [AcpInput.toolID?, hevent]
  have hturn : ∀ turn, x.turnAfter turn = turn := by simp [AcpInput.turnAfter, hevent]
  -- the row, behind any flush
  have hrow : ∀ s₁ : TimelineState, EventSpec x s s₁ → ToolsOwned x s₁ → EventSpec x s
      { s₁ with entries :=
          if s₁.entries.any (isToolUse toolID) then
            updateLast (isToolUse toolID) (fun e => applyDiff content
              { e with
                text := if description = [] then e.text else some description
                toolName := if toolName = [] then e.toolName else some toolName }) s₁.entries
          else s₁.entries ++ [applyDiff content { x.entry .toolUse with
            text := some description, toolID := some toolID, toolName := some toolName
            turnID := x.turnID }] } := by
    intro s₁ hs₁ hown₁
    refine hs₁.setEntries ?_
    split
    · next hany => exact toolRow_change hown₁ htool (fun e => ⟨rfl, rfl, rfl, rfl, id⟩) hany
    · refine Change.append ⟨rfl, fun _ => rfl, fun h => (by cases h), fun _ t ht => ?_⟩
        (fun h => (by cases h))
      exact htool.trans ht
  unfold applyToolUse
  simp only
  by_cases htext : s.bufferedText x.agentBucketKey = []
  · simp only [htext, if_true]
    exact hrow s (EventSpec.refl hk hx hturn) hown
  · simp only [htext, if_false]
    have hnot : alreadyFlushed T s x.agentBucketKey (segmentTurnID s x)
        (s.bufferedText x.agentBucketKey) = false := by
      simpa [Flushes, hevent, htext] using hflush
    obtain ⟨entries, heq, hentries, hout⟩ :=
      @appendSegment_spec x s T 0 hopen (Or.inr hnot) (fun h => absurd h (Nat.lt_irrefl 0))
    rw [heq]
    refine hrow { s with
      entries, streamingTextByAgent := s.streamingTextByAgent.erase x.agentBucketKey } ?_ ?_
    · refine ⟨hentries, fun agent hne => ?_, fun _ _ => rfl, fun _ _ => rfl, fun _ _ => Iff.rfl,
        ⟨fun agent hagent => ?_, hk.models, hk.turns⟩, rfl, Or.inl ?_,
        fun hmem => Or.inr ⟨hmem, hturn⟩, fun turn hne => ?_⟩
      · exact (TreeMap.get_erase _ _ _).trans (if_neg hne.symm)
      · refine (TreeMap.get_erase _ _ _).trans ?_
        split
        · rfl
        · exact hk.texts agent hagent
      · simp [TimelineState.bufferedText]
      · rw [hx, ← hout turn hne]
        simp [streamed, outputsOf, bufferOf, TimelineState.bufferedText]
    · intro e he htype t ht hxt
      rcases hentries.1 e he with ⟨e₀, he₀, -, hsender, htype₀, htool₀, -⟩ | hfresh
      · rw [hsender]
        exact hown e₀ he₀ (htype₀ ▸ htype) t (htool₀ ▸ ht) hxt
      · exact hfresh.1

/-- The agent is idle: the segment is flushed and the tool rows are closed. -/
private theorem idle_spec (T : SwiftText) (hk : KeysKept s) (hevent : x.event = .statusChange true)
    (hopen : s.bufferedText x.agentBucketKey ≠ [] →
      ∃ turn, s.streamingTurnIDByAgent[x.agentBucketKey]? = some turn)
    (hflush : Flushes T s x = true) : EventSpec x s (applyIdle T x s).1 := by
  have hx : x.delta? = none := by simp [AcpInput.delta?, hevent]
  have hnot : s.bufferedText x.agentBucketKey = [] ∨ alreadyFlushed T s x.agentBucketKey
      (segmentTurnID s x) (s.bufferedText x.agentBucketKey) = false := by
    simpa [Flushes, hevent] using hflush
  obtain ⟨entries, heq, hentries, hout⟩ := appendSegment_spec T hopen hnot (fun _ => rfl)
  unfold applyIdle
  simp only [heq]
  refine (EventSpec.clear hk hentries hx hout).setEntries (Change.map fun e _ => ?_)
  split
  · next hp =>
    simp only [isOpenTool, Bool.and_eq_true, decide_eq_true_eq, Bool.not_eq_true'] at hp
    refine Or.inr ⟨hp.2, ⟨rfl, rfl, rfl, rfl, fun _ => rfl⟩, ?_⟩
    rw [NoOutput, hp.1.1]
    exact fun h => (by cases h)
  · exact Or.inl rfl

/-- What a step of a run of delivered envelopes relies on. -/
structure Ready (T : SwiftText) (x : AcpInput) (s : TimelineState) : Prop where
  keys : KeysKept s
  complete : OutputsComplete s
  owned : ToolsOwned x s
  fresh : x.isSeen s = false
  /-- Text in the buffer belongs to a turn. -/
  turn : s.bufferedText x.agentBucketKey ≠ [] →
    ∃ turn, s.streamingTurnIDByAgent[x.agentBucketKey]? = some turn
  /-- A delta belongs to the turn in the buffer. -/
  delta : ∀ text ∈ x.delta?, ∃ turn, turn ≠ [] ∧ x.turnID = some turn ∧
    (s.bufferedText x.agentBucketKey ≠ [] →
      s.streamingTurnIDByAgent[x.agentBucketKey]? = some turn)
  flushes : Flushes T s x = true

/-- Every event does what its specification says. -/
theorem event_spec {T : SwiftText} (h : Ready T x s) : EventSpec x s (applyAcp T x s).1 := by
  have hquiet : ∀ (_ : x.delta? = none) (_ : ∀ turn, x.turnAfter turn = turn)
      (entries : List TimelineEntry), Change x NoOutput s.entries entries →
        EventSpec x s { s with entries } :=
    fun hx hturn _ hc => (EventSpec.refl h.keys hx hturn).setEntries hc
  unfold applyAcp
  cases hrep : x.repeatedOutput? s with
  | some whole =>
    -- the whole output of a turn that has one
    unfold AcpInput.repeatedOutput? at hrep
    split at hrep
    · next text turn hevent hturn =>
      split at hrep
      · next hp =>
        obtain rfl := Option.some.inj hrep
        rw [Bool.and_eq_true, decide_eq_true_eq] at hp
        have hflush := h.flushes
        simp only [Flushes, hevent, hturn, Bool.and_eq_true, Bool.or_eq_true, decide_eq_true_eq,
          Option.any_some, hp.1, ne_eq, not_false_eq_true, decide_true, Bool.not_true,
          Bool.false_eq_true, false_or] at hflush
        simp only [hturn]
        exact repeated_spec h.keys h.complete (by simp [AcpInput.delta?, hevent])
          (fun e => ⟨⟨rfl, rfl, rfl, rfl, id⟩, rfl, rfl⟩) hp.2 hflush.1 hflush.2
      · cases hrep
    · cases hrep
  | none =>
    simp only [h.fresh, Bool.false_eq_true, if_false]
    unfold applyEvent
    cases hevent : x.event with
    | output text isComplete =>
      cases isComplete with
      | false =>
        obtain ⟨turn, hne, hturn, hopen⟩ := h.delta text (by simp [AcpInput.delta?, hevent])
        exact delta_spec h.keys h.complete hevent hturn hne hopen
      | true =>
        have hflush := h.flushes
        simp only [Flushes, hevent, Bool.and_eq_true, Bool.or_eq_true, decide_eq_true_eq] at hflush
        refine complete_spec h.keys h.complete (by simp [AcpInput.delta?, hevent]) hflush.1
          fun turn hne hturn => ?_
        -- its turn has no output yet
        have hnone : s.entries.any (isCompleteOutput x.agentBucketKey (some turn)) = false := by
          simpa [AcpInput.repeatedOutput?, hevent, hturn, hne] using hrep
        have hlast : lastOutput s x.agentBucketKey (some turn) = [] := by
          have hfind : s.entries.reverse.find?
              (isCompleteOutput x.agentBucketKey (some turn)) = none := by
            rw [List.find?_eq_none]
            intro e he
            exact List.any_eq_false.mp hnone e (List.mem_reverse.mp he)
          rw [lastOutput, hfind]
          rfl
        simpa [hturn, hne, hlast] using hflush.2
    | thinking text =>
      obtain ⟨entries, heq, hc⟩ := thinking_change (x := x) (s := s) text
      simp only [heq]
      exact hquiet (by simp [AcpInput.delta?, hevent]) (by simp [AcpInput.turnAfter, hevent]) _ hc
    | toolUse toolID description toolName content =>
      exact toolUse_spec T h.keys h.owned hevent h.turn h.flushes
    | toolResult toolID success summary content =>
      refine hquiet (by simp [AcpInput.delta?, hevent]) (by simp [AcpInput.turnAfter, hevent]) _ ?_
      split
      · next hany =>
        exact toolRow_change h.owned (by simp [AcpInput.toolID?, hevent])
          (fun e => ⟨rfl, rfl, rfl, rfl, fun _ => rfl⟩) hany
      · exact Change.append ⟨rfl, fun _ => rfl, fun h => (by cases h), fun h => (by cases h)⟩
          (fun h => (by cases h))
    | error message =>
      refine hquiet (by simp [AcpInput.delta?, hevent]) (by simp [AcpInput.turnAfter, hevent]) _ ?_
      exact Change.append ⟨rfl, fun _ => rfl, fun h => (by cases h), fun h => (by cases h)⟩
        (fun h => (by cases h))
    | permissionRequest requestID description toolName =>
      simp only
      have hx : x.delta? = none := by simp [AcpInput.delta?, hevent]
      have hturn : ∀ turn, x.turnAfter turn = turn := by simp [AcpInput.turnAfter, hevent]
      split
      · exact EventSpec.refl h.keys hx hturn
      · exact hquiet hx hturn _ (Change.append
          ⟨rfl, fun _ => rfl, fun h => (by cases h), fun h => (by cases h)⟩ (fun h => (by cases h)))
    | planUpdate plan =>
      refine hquiet (by simp [AcpInput.delta?, hevent]) (by simp [AcpInput.turnAfter, hevent]) _ ?_
      split
      · next hany =>
        refine Change.updateLast hany fun e _ hp => ?_
        simp only [isPlan, Bool.and_eq_true, decide_eq_true_eq] at hp
        refine ⟨hp.2, ⟨rfl, rfl, rfl, rfl, id⟩, ?_⟩
        rw [NoOutput, hp.1]
        exact fun h => (by cases h)
      · exact Change.append ⟨rfl, fun _ => rfl, fun h => (by cases h), fun h => (by cases h)⟩
          (fun h => (by cases h))
    | statusChange idle =>
      cases idle with
      | true => exact idle_spec T h.keys hevent h.turn h.flushes
      | false =>
        exact EventSpec.refl h.keys (by simp [AcpInput.delta?, hevent])
          (by simp [AcpInput.turnAfter, hevent])
    | availableCommands commands =>
      have hsame := EventSpec.refl h.keys (x := x) (by simp [AcpInput.delta?, hevent])
        (by simp [AcpInput.turnAfter, hevent])
      simp only
      split
      · exact { hsame with keys := ⟨h.keys.texts, h.keys.models, h.keys.turns⟩ }
      · exact hsame
    | raw =>
      exact EventSpec.refl h.keys (by simp [AcpInput.delta?, hevent])
        (by simp [AcpInput.turnAfter, hevent])

end Events

/-! ## Runs -/

/-- A delta is what opens a turn. -/
private theorem turnAfter_of_delta {x : AcpInput} (h : x.delta?.isSome = true) (turn : Option Str) :
    x.turnAfter turn = x.turnID := by
  unfold AcpInput.delta? at h
  split at h
  · next hevent => rw [AcpInput.turnAfter, hevent]
  · cases h

/-- The open turn after one more event. -/
theorem openTurn_append (agent : Str) (xs : List AcpInput) (x : AcpInput) :
    openTurn agent (xs ++ [x]) =
      if x.agentBucketKey = agent then x.turnAfter (openTurn agent xs) else openTurn agent xs := by
  simp [openTurn]

/-- The deltas of a turn after one more event. -/
theorem deltasOf_append (agent turn : Str) (xs : List AcpInput) (x : AcpInput) :
    deltasOf agent turn (xs ++ [x]) = deltasOf agent turn xs ++
      if x.agentBucketKey = agent ∧ x.turnID = some turn then x.delta?.getD [] else [] := by
  simp [deltasOf]

/-- The outputs of a turn are among the entries of its agent. -/
private theorem outputsOf_filter (agent turn : Str) (es : List TimelineEntry) :
    (es.filter (·.sender = agent)).flatMap (outputText agent turn) =
      es.flatMap (outputText agent turn) := by
  induction es with
  | nil => rfl
  | cons e es ih =>
    rw [List.filter_cons, List.flatMap_cons, ← ih]
    split
    · rw [List.flatMap_cons]
    · next hsender =>
      rw [decide_eq_true_eq] at hsender
      simp [outputText, isOutputOf, hsender]

/-- What holds after the events of a run. -/
structure RunInv (xs : List AcpInput) (s : TimelineState) : Prop where
  keys : KeysKept s
  complete : OutputsComplete s
  pending : s.pendingPersistedReplies = []
  /-- The sequence of an entry is that of an event of its agent. -/
  seen : ∀ e ∈ s.entries, 0 < e.sequence →
    ∃ y ∈ xs, y.agentBucketKey = e.sender ∧ y.envelopeSequence = e.sequence
  /-- The tool call of an entry is one of its agent. -/
  tools : ∀ e ∈ s.entries, e.eventType = .toolUse → ∀ toolID ∈ e.toolID,
    ∃ y ∈ xs, y.agentBucketKey = e.sender ∧ y.toolID? = some toolID
  /-- The text in a buffer belongs to the open turn. -/
  turn : ∀ agent, s.bufferedText agent ≠ [] → ∃ turn, s.streamingTurnIDByAgent[agent]? = some turn ∧
    openTurn agent xs = some turn
  midStream : ∀ agent ∈ s.streamingAgentSet, openTurn agent xs ≠ none
  conserved : ∀ agent turn, turn ≠ [] → streamed agent turn s = deltasOf agent turn xs

theorem RunInv.nil : RunInv [] {} where
  keys := ⟨fun _ _ => Std.ExtTreeMap.getElem?_empty, fun _ _ => Std.ExtTreeMap.getElem?_empty,
    fun _ _ => Std.ExtTreeMap.getElem?_empty⟩
  complete := fun _ he => absurd he List.not_mem_nil
  pending := rfl
  seen := fun _ he => absurd he List.not_mem_nil
  tools := fun _ he => absurd he List.not_mem_nil
  turn := fun _ h => absurd rfl h
  midStream := fun agent h => absurd h (Finset.notMem_empty agent)
  conserved := fun agent turn _ => by simp [streamed, outputsOf, bufferOf, deltasOf]

section Step

variable {before after : List AcpInput} {x : AcpInput} {s s' : TimelineState}

/-- The next event of a run of delivered envelopes is one that the reducer is ready for. -/
theorem RunInv.ready {T : SwiftText} (h : RunInv before s) (hd : Delivered (before ++ x :: after))
    (hflush : Flushes T s x = true) : Ready T x s where
  keys := h.keys
  complete := h.complete
  owned := by
    intro e he htype toolID htool hx
    obtain ⟨y, hy, hagent, hty⟩ := h.tools e he htype toolID htool
    rw [← hagent]
    exact hd.tools y (by simp [hy]) x (by simp) toolID hty hx
  fresh := by
    rw [AcpInput.isSeen, Bool.and_eq_false_imp]
    intro hpos
    rw [List.any_eq_false]
    intro e he hsame
    simp only [Bool.and_eq_true, decide_eq_true_eq] at hpos hsame
    obtain ⟨y, hy, hagent, hseq⟩ := h.seen e he (hsame.1 ▸ hpos)
    -- an envelope of this agent with this sequence came before
    exact (List.pairwise_append.mp hd.once).2.2 y hy x (by simp) (hagent.trans hsame.2)
      (hseq.trans hsame.1 ▸ hpos) (hseq.trans hsame.1)
  turn := fun htext => (h.turn _ htext).imp fun _ ht => ht.1
  delta := by
    intro text htext
    obtain ⟨turn, hne, hturn, hopen⟩ := hd.turns before x after rfl text htext
    refine ⟨turn, hne, hturn, fun hbuffer => ?_⟩
    obtain ⟨active, hactive, hactive'⟩ := h.turn _ hbuffer
    rw [hactive, hopen active hactive']
  flushes := hflush

/-- A buffer that an event of another agent leaves alone. -/
private theorem EventSpec.bufferedText (h : EventSpec x s s') {agent : Str}
    (hne : agent ≠ x.agentBucketKey) : s'.bufferedText agent = s.bufferedText agent := by
  simp only [TimelineState.bufferedText, h.agents agent hne, h.texts agent hne]

/-- What other turns have streamed stays. -/
private theorem EventSpec.streamed (h : EventSpec x s s') {agent : Str}
    (hne : agent ≠ x.agentBucketKey) (turn : Str) : streamed agent turn s' = streamed agent turn s := by
  have hout : outputsOf agent turn s' = outputsOf agent turn s := by
    rw [outputsOf, outputsOf, ← outputsOf_filter, h.entries.2 agent hne, outputsOf_filter]
  rw [Timeline.streamed, Timeline.streamed, hout, bufferOf, bufferOf, h.bufferedText hne,
    h.turns agent hne]

/-- An event keeps the invariant. -/
theorem RunInv.step (h : RunInv before s) (hd : Delivered (before ++ x :: after))
    (hs : EventSpec x s s') : RunInv (before ++ [x]) s' where
  keys := hs.keys
  complete := by
    intro e' he' htype
    rcases hs.entries.1 e' he' with ⟨e, he, -, -, htype', -, hcomplete⟩ | hfresh
    · exact hcomplete (h.complete e he (htype' ▸ htype))
    · exact hfresh.2.2.1 htype
  pending := hs.pending.trans h.pending
  seen := by
    intro e' he' hpos
    rcases hs.entries.1 e' he' with ⟨e, he, hseq, hsender, -, -, -⟩ | hfresh
    · obtain ⟨y, hy, hagent, hyseq⟩ := h.seen e he (hseq ▸ hpos)
      exact ⟨y, by simp [hy], hagent.trans hsender.symm, hyseq.trans hseq.symm⟩
    · exact ⟨x, by simp, hfresh.1.symm, (hfresh.2.1 hpos).symm⟩
  tools := by
    intro e' he' htype toolID htool
    rcases hs.entries.1 e' he' with ⟨e, he, -, hsender, htype', htool', -⟩ | hfresh
    · obtain ⟨y, hy, hagent, hytool⟩ := h.tools e he (htype' ▸ htype) toolID (htool' ▸ htool)
      exact ⟨y, by simp [hy], hagent.trans hsender.symm, hytool⟩
    · exact ⟨x, by simp, hfresh.1.symm, hfresh.2.2.2 htype toolID htool⟩
  turn := by
    intro agent htext
    rw [openTurn_append]
    by_cases hagent : x.agentBucketKey = agent
    · subst hagent
      rw [if_pos rfl]
      rcases hs.buffer with hempty | ⟨hturn, hdelta⟩ | ⟨hsame, hturn, hafter⟩
      · exact absurd hempty htext
      · obtain ⟨text, hx⟩ := Option.isSome_iff_exists.mp hdelta
        obtain ⟨turn, -, hxturn, -⟩ := hd.turns before x after rfl text hx
        exact ⟨turn, hturn.trans hxturn, (turnAfter_of_delta hdelta _).trans hxturn⟩
      · rw [hturn, hafter]
        exact h.turn _ (hsame ▸ htext)
    · have hne : agent ≠ x.agentBucketKey := fun heq => hagent heq.symm
      rw [if_neg hagent, hs.turns agent hne]
      exact h.turn agent (hs.bufferedText hne ▸ htext)
  midStream := by
    intro agent hmem
    rw [openTurn_append]
    by_cases hagent : x.agentBucketKey = agent
    · subst hagent
      rw [if_pos rfl]
      rcases hs.midStream hmem with hdelta | ⟨hmem, hafter⟩
      · obtain ⟨text, hx⟩ := Option.isSome_iff_exists.mp hdelta
        obtain ⟨turn, -, hxturn, -⟩ := hd.turns before x after rfl text hx
        rw [turnAfter_of_delta hdelta, hxturn]
        exact Option.some_ne_none turn
      · rw [hafter]
        exact h.midStream _ hmem
    · rw [if_neg hagent]
      exact h.midStream agent ((hs.agents agent fun heq => hagent heq.symm).mp hmem)
  conserved := by
    intro agent turn hturn
    rw [deltasOf_append]
    by_cases hagent : x.agentBucketKey = agent
    · subst hagent
      rw [hs.conserved turn hturn, h.conserved _ turn hturn]
      simp
    · rw [hs.streamed (fun heq => hagent heq.symm), h.conserved agent turn hturn,
        if_neg fun hand => hagent hand.1, List.append_nil]

/-- What a step of the reducer does in such a run. -/
theorem RunInv.spec {T : SwiftText} (h : RunInv before s) (hd : Delivered (before ++ x :: after))
    (hflush : Flushes T s x = true) : EventSpec x s (apply T (.acp x) s) := by
  have hs : EventSpec x s (applyAcp T x s).1 := event_spec (h.ready hd hflush)
  have heq : apply T (.acp x) s = (applyAcp T x s).1 :=
    claim_of_pending_nil T (hs.pending.trans h.pending)
  rw [heq]
  exact hs

end Step

/-- The invariant holds in every state of the run, and every step leaves the other agents alone. -/
private theorem run_inv (T : SwiftText) {after : List AcpInput} :
    ∀ {before : List AcpInput} {s : TimelineState}, RunInv before s → Delivered (before ++ after) →
      (agentReducer T).Steps (fun s x => Flushes T s x = true) s after →
      (∀ xs ys, after = xs ++ ys → RunInv (before ++ xs) ((agentReducer T).runFrom s xs)) ∧
        (agentReducer T).Steps (fun s x => Isolated x s ((agentReducer T).step s x)) s after := by
  induction after with
  | nil =>
    intro before s h _ _
    refine ⟨fun xs ys heq => ?_, trivial⟩
    rw [(List.append_eq_nil_iff.mp heq.symm).1, List.append_nil]
    exact h
  | cons x after ih =>
    intro before s h hd hsteps
    have hspec := h.spec hd hsteps.1
    have hd' : Delivered ((before ++ [x]) ++ after) := by simpa using hd
    obtain ⟨hrun, hisolated⟩ := ih (h.step hd hspec) hd' hsteps.2
    refine ⟨fun xs ys heq => ?_, ⟨hspec.entries.2, hspec.texts, hspec.models, hspec.turns,
      hspec.agents⟩, hisolated⟩
    cases xs with
    | nil => simpa using h
    | cons y xs =>
      obtain ⟨rfl, rfl⟩ := List.cons.inj heq
      have hxs := hrun xs ys rfl
      rw [List.append_assoc, List.singleton_append] at hxs
      exact hxs

/-- What the timeline keeps of the events so far. -/
structure Conserves (xs : List AcpInput) (s : TimelineState) : Prop where
  /-- The entries and the buffer of a turn are its deltas. -/
  streamed : ∀ agent turn, turn ≠ [] →
    outputsOf agent turn s ++ bufferOf agent turn s = deltasOf agent turn xs
  /-- Behind the idle status the entries are. -/
  closed : ∀ agent, openTurn agent xs = none → ∀ turn, turn ≠ [] →
    outputsOf agent turn s = deltasOf agent turn xs
  keys : KeysKept s
  /-- An idle agent has nothing in its buffers. -/
  idle : ∀ agent, openTurn agent xs = none → s.streamingTextByAgent[agent]? = none ∧
    s.streamingModelByAgent[agent]? = none ∧ s.streamingTurnIDByAgent[agent]? = none

/-- The invariant, as the feed shows it. -/
theorem RunInv.conserves {xs : List AcpInput} {s : TimelineState} (h : RunInv xs s) :
    Conserves xs s where
  streamed := h.conserved
  closed := by
    intro agent hidle turn hturn
    have hempty : s.bufferedText agent = [] := by
      by_contra htext
      obtain ⟨_, -, hopen⟩ := h.turn agent htext
      rw [hidle] at hopen
      cases hopen
    have hbuffer : bufferOf agent turn s = [] := by simp [bufferOf, hempty]
    rw [← h.conserved agent turn hturn, Timeline.streamed, hbuffer, List.append_nil]
  keys := h.keys
  idle := by
    intro agent hidle
    have hout : agent ∉ s.streamingAgentSet := fun hmem => h.midStream agent hmem hidle
    exact ⟨h.keys.texts agent hout, h.keys.models agent hout, h.keys.turns agent hout⟩

/-- The entries of a turn are its deltas in every state of a run of delivered envelopes whose steps
    flush what they should, and no event touches the reply of another agent. -/
theorem replies_conserved (T : SwiftText) {xs : List AcpInput} (h : Delivered xs)
    (hsteps : (agentReducer T).Steps (fun s x => Flushes T s x = true) (agentReducer T).init xs) :
    (∀ before after, xs = before ++ after → Conserves before ((agentReducer T).run before)) ∧
      (agentReducer T).Steps (fun s x => Isolated x s ((agentReducer T).step s x))
        (agentReducer T).init xs := by
  have hrun := run_inv T RunInv.nil h hsteps
  exact ⟨fun before after heq => (hrun.1 before after heq).conserves, hrun.2⟩

/-- Runs of delivered envelopes in which one agent calls tools are recognized. -/
theorem Delivered.of_check {xs : List AcpInput} (owner : Str)
    (once : xs.Pairwise fun x y => x.agentBucketKey = y.agentBucketKey → 0 < x.envelopeSequence →
      x.envelopeSequence ≠ y.envelopeSequence)
    (turns : ∀ n < xs.length, ∀ x ∈ xs[n]?, x.delta?.isSome = true →
      (x.turnID.any fun turn => turn ≠ [] &&
        (openTurn x.agentBucketKey (xs.take n)).all (· = turn)) = true)
    (tools : ∀ x ∈ xs, x.toolID?.isSome = true → x.agentBucketKey = owner) : Delivered xs where
  once := once
  turns := by
    rintro before x after rfl text htext
    have hturn := turns before.length (by simp) x (by simp) (by simp [Option.mem_def.mp htext])
    rw [List.take_left, Option.any_eq_true] at hturn
    obtain ⟨turn, hxturn, hturn⟩ := hturn
    rw [Bool.and_eq_true, decide_eq_true_eq, Option.all_eq_true] at hturn
    exact ⟨turn, hturn.1, hxturn, fun active hactive => of_decide_eq_true (hturn.2 active hactive)⟩
  tools := by
    intro x hx y hy toolID hxt hyt
    rw [tools x hx (by simp [hxt]), tools y hy (by simp [hyt])]

/-- An event of the turn `"t"` of an agent. -/
def eventOf (agent : Str) (envelopeSequence : Nat) (event : AcpEvent) : AcpInput :=
  { agentBucketKey := agent, envelopeSequence, timestamp := 0, turnID := some ['t'], event, model := [] }

/-- Two agents at work, one of them with a tool. -/
def sampleReplies : List AcpInput :=
  [eventOf ['a'] 1 (.output "so ".toList false), eventOf ['b'] 1 (.output "yes".toList false),
    eventOf ['a'] 2 (.output "far".toList false), eventOf ['a'] 3 (.toolUse ['x'] ['d'] ['n'] []),
    eventOf ['b'] 2 (.statusChange true), eventOf ['a'] 4 (.output " done".toList false),
    eventOf ['a'] 5 (.statusChange true)]

theorem replies_conserved_sample :
    Delivered sampleReplies ∧
      (agentReducer plainText).Steps (fun s x => Flushes plainText s x = true)
        (agentReducer plainText).init sampleReplies ∧
      (∀ before after, sampleReplies = before ++ after →
        Conserves before ((agentReducer plainText).run before)) ∧
      (agentReducer plainText).Steps
        (fun s x => Isolated x s ((agentReducer plainText).step s x))
        (agentReducer plainText).init sampleReplies := by
  have hd : Delivered sampleReplies :=
    Delivered.of_check ['a'] (by decide) (by decide +kernel) (by decide +kernel)
  have hsteps : (agentReducer plainText).Steps (fun s x => Flushes plainText s x = true)
      (agentReducer plainText).init sampleReplies := by decide
  exact ⟨hd, hsteps, replies_conserved plainText hd hsteps⟩

/-- The second of two equal segments of a turn is lost. -/
theorem segment_lost :
    ¬ ∀ xs : List AcpInput, Delivered xs → ∀ agent, openTurn agent xs = none → ∀ turn, turn ≠ [] →
      outputsOf agent turn ((agentReducer plainText).run xs) = deltasOf agent turn xs := by
  intro h
  have hd : Delivered
      [eventOf ['a'] 1 (.output "ok".toList false), eventOf ['a'] 2 (.toolUse ['x'] ['d'] ['n'] []),
        eventOf ['a'] 3 (.output "ok".toList false), eventOf ['a'] 4 (.statusChange true)] :=
    Delivered.of_check ['a'] (by decide) (by decide +kernel) (by decide +kernel)
  exact absurd (h _ hd ['a'] (by decide) ['t'] (by decide +kernel)) (by decide +kernel)

end TeamClu.Timeline
