import TeamClu.Spec.ChatBubbles
import TeamClu.Spec.StreamedReplies

/-!
# Replaying an input

A replay is invisible when it adds no entry, changes no text and reverts no status (`Invisible`).  In a
timeline that any run has reached this is so exactly when the timeline has settled for the input
(`Settled`), kind by kind: `replay_invisible_iff`.  A delta is in no entry, so its replay is not
recognized and the buffer has its text twice (`delta_doubled`).
-/

namespace TeamClu.Timeline

/-! ## What a replay may change -/

/-- The entry shows the same text, and no status of it is reverted. -/
structure Unrevised (e e' : TimelineEntry) : Prop where
  text : e'.text = e.text
  isComplete : e.isComplete = true → e'.isComplete = true
  success : ∀ b ∈ e.success, e'.success = some b

/-- The step adds no entry, changes no text and reverts no status. -/
structure Invisible (s s' : TimelineState) : Prop where
  entries : List.Forall₂ Unrevised s.entries s'.entries
  texts : ∀ agent : Str,
    s'.streamingTextByAgent[agent]?.getD [] = s.streamingTextByAgent[agent]?.getD []

/-- The input has a key that a replay can be recognized by. -/
def TimelineInput.hasKey : TimelineInput → Bool
  | .acp x => 0 < x.envelopeSequence
  | _ => true

/-! ## Timelines that have settled for an input -/

/-- The event finds what it would change as it would leave it: a row of the same text or status, and no
    text in the buffer that it would flush. -/
def settledEvent (s : TimelineState) (x : AcpInput) : Bool :=
  let bucket := x.agentBucketKey
  let text := s.streamingTextByAgent[bucket]?.getD []
  match x.event with
  | .output _ true => false
  | .output delta false => if x.startsOther s then delta = text else delta = []
  | .thinking thought => s.entries.getLast?.any fun e =>
    e.eventType = .thinking && e.sender = bucket && e.text.isSome && thought = []
  | .toolUse toolID description _ _ => text = [] &&
    (s.entries.reverse.find? (isToolUse toolID)).any fun e =>
      description = [] || e.text = some description
  | .toolResult toolID success _ _ =>
    (s.entries.reverse.find? (isToolUse toolID)).any fun e => e.success.all (· = success)
  | .error _ => false
  | .permissionRequest requestID _ _ => s.entries.any (isPermission requestID)
  | .planUpdate plan =>
    (s.entries.reverse.find? (isPlan bucket)).any fun e => e.text = some (planText plan)
  | .statusChange idle => !idle || text = []
  | .availableCommands _ | .raw => true

/-- A whole output that its turn has must be the text of that entry; an event must have an entry, or
    find its changes made. -/
def settledAcp (s : TimelineState) (x : AcpInput) : Bool :=
  match x.repeatedOutput? s with
  | some whole => s.streamingTextByAgent[x.agentBucketKey]?.getD [] = [] &&
    (s.entries.reverse.find? (isCompleteOutput x.agentBucketKey x.turnID)).any (·.text = some whole)
  | none => x.isSeen s || settledEvent s x

variable (T : SwiftText)

/-- The row of the history has an entry that is no shorter fragment of it. -/
def settledRow (input : HistoryInput) (entries : List TimelineEntry) : Bool :=
  entries.any (hasSupabaseID input.supabaseMessageID) || entries.any (isOwnBubble input) ||
    (input.isOutput && entries.any (isSameOutput T input)) ||
    (!(input.isOutput && entries.any (isFragment T input)) && entries.any (isSameText T input))

/-- The row clears no text of the stream of its agent. -/
def settledStream (s : TimelineState) (input : HistoryInput) : Bool :=
  let bucket := input.senderActorID.getD []
  let saved := s.streamingTextByAgent[bucket]?.getD []
  !input.isOutput || bucket = [] || saved = [] ||
    (!(input.closesTurn && input.turnID.any (· ≠ []) &&
        s.streamingTurnIDByAgent[bucket]? = input.turnID) &&
      !T.hasPrefix input.content saved)

/-- The timeline has settled for the input. -/
def Settled (s : TimelineState) : TimelineInput → Bool
  | .acp x => settledAcp s x
  | .liveMessage l => s.entries.any (·.id = some l.messageID) ||
    s.entries.any fun e => l.clientLocalID.any fun c => e.clientID = some c
  | .historyMessage h => settledRow T h s.entries && settledStream T s h
  | .localPrompt p => s.entries.any (·.clientID = some p.clientID)
  | .permissionResolution r =>
    (s.entries.find? (isPermission r.requestID)).all fun e => e.success.all (· = r.granted)
  | .persistedReply _ => true

/-! ## Timelines that a run reaches -/

/-- An output is complete. -/
def Sound (e : TimelineEntry) : Prop := e.eventType = .output → e.isComplete = true

/-- What every run keeps. -/
structure Regular (s : TimelineState) : Prop where
  complete : ∀ e ∈ s.entries, Sound e
  keys : KeysKept s

/-- What a step does to a regular timeline. -/
structure ReplaySpec (settled : Bool) (s s' : TimelineState) : Prop where
  invisible : Invisible s s' ↔ settled = true
  regular : Regular s'

theorem Unrevised.refl (e : TimelineEntry) : Unrevised e e := ⟨rfl, id, fun _ hb => hb⟩

theorem Unrevised.trans {e e' e'' : TimelineEntry} (h : Unrevised e e') (h' : Unrevised e' e'') :
    Unrevised e e'' :=
  ⟨h'.text.trans h.text, fun hc => h'.isComplete (h.isComplete hc),
    fun b hb => h'.success b (h.success b hb)⟩

/-- Relations of lists compose. -/
private theorem forall₂_comp {R S Q : TimelineEntry → TimelineEntry → Prop}
    (hcomp : ∀ a b c, R a b → S b c → Q a c) {as bs cs : List TimelineEntry}
    (h : List.Forall₂ R as bs) (h' : List.Forall₂ S bs cs) : List.Forall₂ Q as cs := by
  induction h generalizing cs with
  | nil =>
    rw [List.forall₂_nil_left_iff] at h'
    rw [h']
    exact .nil
  | cons hab _ ih =>
    obtain ⟨c, cs, hbc, hrest, rfl⟩ := List.forall₂_cons_left_iff.mp h'
    exact .cons (hcomp _ _ _ hab hbc) (ih hrest)

theorem Invisible.refl (s : TimelineState) : Invisible s s :=
  ⟨List.forall₂_same.mpr fun e _ => Unrevised.refl e, fun _ => rfl⟩

theorem Invisible.trans {s s' s'' : TimelineState} (h : Invisible s s') (h' : Invisible s' s'') :
    Invisible s s'' :=
  ⟨forall₂_comp (fun _ _ _ he he' => he.trans he') h.entries h'.entries,
    fun agent => (h'.texts agent).trans (h.texts agent)⟩

section Changes

variable {s : TimelineState}

/-- The timeline stays. -/
theorem ReplaySpec.refl (h : Regular s) : ReplaySpec true s s :=
  ⟨iff_of_true (Invisible.refl s) rfl, h⟩

/-- An entry is added. -/
theorem ReplaySpec.add (h : Regular s) {e : TimelineEntry} (he : Sound e)
    {entries : List TimelineEntry} (hperm : entries.Perm (s.entries ++ [e])) :
    ReplaySpec false s { s with entries } where
  invisible := by
    refine iff_of_false (fun hinv => ?_) (by simp)
    have hlen := hinv.entries.length_eq
    simp [hperm.length_eq] at hlen
  regular := by
    refine ⟨fun x hx => ?_, h.keys.setEntries entries⟩
    rcases List.mem_append.mp (hperm.mem_iff.mp hx) with hx | hx
    · exact h.complete x hx
    · obtain rfl := List.mem_singleton.mp hx
      exact he

theorem ReplaySpec.append (h : Regular s) {e : TimelineEntry} (he : Sound e) :
    ReplaySpec false s { s with entries := s.entries ++ [e] } :=
  ReplaySpec.add h he (List.Perm.refl _)

/-- The step changes the entries and nothing else. -/
private theorem invisible_setEntries {entries : List TimelineEntry} :
    Invisible s { s with entries } ↔ List.Forall₂ Unrevised s.entries entries :=
  ⟨Invisible.entries, fun h => ⟨h, fun _ => rfl⟩⟩

/-- The last entry that fits is changed. -/
theorem ReplaySpec.updateLast (h : Regular s) {p : TimelineEntry → Bool}
    {f : TimelineEntry → TimelineEntry} (hf : ∀ e, Sound e → Sound (f e)) {settled : Bool}
    (hsettled : (∀ e ∈ s.entries.reverse.find? p, Unrevised e (f e)) ↔ settled = true) :
    ReplaySpec settled s { s with entries := updateLast p f s.entries } where
  invisible := by
    rw [invisible_setEntries, forall₂_updateLast Unrevised.refl, hsettled]
  regular := ⟨forall_updateLast h.complete hf, h.keys.setEntries _⟩

/-- The first entry that fits is changed. -/
theorem ReplaySpec.updateFirst (h : Regular s) {p : TimelineEntry → Bool}
    {f : TimelineEntry → TimelineEntry} (hf : ∀ e, Sound e → Sound (f e)) {settled : Bool}
    (hsettled : (∀ e ∈ s.entries.find? p, Unrevised e (f e)) ↔ settled = true) :
    ReplaySpec settled s { s with entries := updateFirst p f s.entries } where
  invisible := by
    rw [invisible_setEntries, forall₂_updateFirst Unrevised.refl, hsettled]
  regular := ⟨forall_updateFirst h.complete fun e he _ => hf e (h.complete e he),
    h.keys.setEntries _⟩

/-- The entry that is found, if one is. -/
private theorem find?_any {p : TimelineEntry → Bool} {es : List TimelineEntry}
    (h : es.any p = true) (q : TimelineEntry → Bool) :
    (es.reverse.find? p).any q = true ↔ ∀ e ∈ es.reverse.find? p, q e = true := by
  obtain ⟨e, he⟩ : ∃ e, es.reverse.find? p = some e := by
    rw [← Option.isSome_iff_exists, List.find?_isSome]
    obtain ⟨e, he, hp⟩ := List.any_eq_true.mp h
    exact ⟨e, List.mem_reverse.mpr he, hp⟩
  simp [he]

private theorem find?_any_of_not {p : TimelineEntry → Bool} {es : List TimelineEntry}
    (h : ¬ es.any p = true) (q : TimelineEntry → Bool) : (es.reverse.find? p).any q = false := by
  have hnone : es.reverse.find? p = none := by
    rw [List.find?_eq_none]
    intro e he hp
    exact h (List.any_eq_true.mpr ⟨e, List.mem_reverse.mp he, hp⟩)
  rw [hnone]
  rfl

end Changes

/-! ## Replies that wait -/

/-- The entry shows the same. -/
structure SameFace (e e' : TimelineEntry) : Prop where
  eventType : e'.eventType = e.eventType
  text : e'.text = e.text
  isComplete : e'.isComplete = e.isComplete
  success : e'.success = e.success

theorem SameFace.refl (e : TimelineEntry) : SameFace e e := ⟨rfl, rfl, rfl, rfl⟩

theorem SameFace.sound {e e' : TimelineEntry} (h : SameFace e e') (he : Sound e) : Sound e' := by
  rw [Sound, h.eventType, h.isComplete]
  exact he

/-- A reply that is stamped on an entry changes nothing that shows. -/
private theorem stampReply_sameFace {reply : PersistedReplyInput} {es es' : List TimelineEntry}
    (h : stampReply T reply es = some es') : List.Forall₂ SameFace es es' := by
  have hadopt : ∀ e, SameFace e (adopt reply e) := fun e => ⟨rfl, rfl, rfl, rfl⟩
  unfold stampReply at h
  split at h
  · obtain rfl := Option.some.inj h
    exact (forall₂_updateLast SameFace.refl).mpr fun e _ => hadopt e
  · split at h
    · obtain rfl := Option.some.inj h
      exact (forall₂_updateLast SameFace.refl).mpr fun e _ => hadopt e
    · cases h

private theorem claimPending_sameFace (replies : List PersistedReplyInput)
    (es : List TimelineEntry) : List.Forall₂ SameFace es (claimPending T replies es).1 := by
  have htrans : ∀ a b c, SameFace a b → SameFace b c → SameFace a c := fun _ _ _ h h' =>
    ⟨h'.eventType.trans h.eventType, h'.text.trans h.text, h'.isComplete.trans h.isComplete,
      h'.success.trans h.success⟩
  induction replies generalizing es with
  | nil => exact List.forall₂_same.mpr fun e _ => SameFace.refl e
  | cons reply rest ih =>
    unfold claimPending
    split
    · exact ih es
    · split
      · next es' hes' => exact forall₂_comp htrans (stampReply_sameFace T hes') (ih es')
      · exact ih es

/-- What does not show does not matter. -/
private theorem ReplaySpec.sameFace {settled : Bool} {s s' : TimelineState}
    (h : ReplaySpec settled s s') {entries : List TimelineEntry}
    {pendingPersistedReplies : List PersistedReplyInput}
    (hsame : List.Forall₂ SameFace s'.entries entries) :
    ReplaySpec settled s { s' with entries, pendingPersistedReplies } where
  invisible := by
    rw [← h.invisible]
    constructor
    · refine fun hinv => ⟨forall₂_comp (fun a b c hab hbc => ?_) hinv.entries hsame.flip, hinv.texts⟩
      have hbc : SameFace c b := hbc
      refine ⟨hbc.text.symm.trans hab.text, fun hc => ?_, fun x hx => ?_⟩
      · rw [← hbc.isComplete]
        exact hab.isComplete hc
      · rw [← hbc.success]
        exact hab.success x hx
    · refine fun hinv => ⟨forall₂_comp (fun a b c hab hbc => ?_) hinv.entries hsame, hinv.texts⟩
      refine ⟨hbc.text.trans hab.text, fun hc => ?_, fun x hx => ?_⟩
      · rw [hbc.isComplete]
        exact hab.isComplete hc
      · rw [hbc.success]
        exact hab.success x hx
  regular := by
    refine ⟨fun e he => ?_, ⟨h.regular.keys.texts, h.regular.keys.models, h.regular.keys.turns⟩⟩
    obtain ⟨i, hi, rfl⟩ := List.getElem_of_mem he
    have hi' : i < s'.entries.length := hsame.length_eq ▸ hi
    exact ((List.forall₂_iff_get.mp hsame).2 i hi' hi).sound
      (h.regular.complete _ (List.getElem_mem hi'))

/-! ## Events of the agents -/

section Events

variable {T} {s s' : TimelineState} {x : AcpInput}

/-- What a step of one agent changes that shows: the entries, and its buffer. -/
private theorem invisible_iff {bucket : Str}
    (hothers : ∀ agent, agent ≠ bucket →
      s'.streamingTextByAgent[agent]? = s.streamingTextByAgent[agent]?) :
    Invisible s s' ↔ List.Forall₂ Unrevised s.entries s'.entries ∧
      s'.streamingTextByAgent[bucket]?.getD [] = s.streamingTextByAgent[bucket]?.getD [] := by
  constructor
  · exact fun h => ⟨h.entries, h.texts bucket⟩
  · refine fun h => ⟨h.1, fun agent => ?_⟩
    by_cases hagent : agent = bucket
    · rw [hagent]
      exact h.2
    · rw [hothers agent hagent]

/-- The same, when the stream of the agent ends. -/
private theorem invisible_clearStreaming {entries : List TimelineEntry} {bucket : Str} :
    Invisible s ({ s with entries }.clearStreaming bucket) ↔
      List.Forall₂ Unrevised s.entries entries ∧ s.streamingTextByAgent[bucket]?.getD [] = [] := by
  have hothers : ∀ agent, agent ≠ bucket →
      ({ s with entries }.clearStreaming bucket).streamingTextByAgent[agent]? =
        s.streamingTextByAgent[agent]? := by
    intro agent hagent
    rw [clearStreaming_text, if_neg hagent.symm]
  rw [invisible_iff hothers, clearStreaming_entries, clearStreaming_text, if_pos rfl, Option.getD_none, eq_comm]

/-- A delta. -/
private theorem delta_replay (h : Regular s) {text : Str} :
    ReplaySpec (if x.startsOther s then text = s.streamingTextByAgent[x.agentBucketKey]?.getD []
      else text = []) s (applyDelta x text s).1 := by
  have hothers : ∀ agent, agent ≠ x.agentBucketKey →
      (x.continued s).streamingTextByAgent[agent]? = s.streamingTextByAgent[agent]? := by
    intro agent hagent
    unfold AcpInput.continued
    split
    · rw [clearStreaming_text, if_neg hagent.symm]
    · rfl
  have hkeys : KeysKept (x.continued s) := by
    unfold AcpInput.continued
    split
    · exact h.keys.clearStreaming _
    · exact h.keys
  have htexts : ∀ agent, agent ≠ x.agentBucketKey → ((x.continued s).streamingTextByAgent.insert
      x.agentBucketKey ((x.continued s).streamingTextByAgent[x.agentBucketKey]?.getD [] ++ text))[agent]? =
        s.streamingTextByAgent[agent]? := by
    intro agent hagent
    rw [TreeMap.get_insert, if_neg hagent.symm, hothers agent hagent]
  rw [applyDelta_eq h.complete]
  refine ⟨(invisible_iff htexts).trans ?_, fun e he => h.complete e (continued_entries x s ▸ he), ?_⟩
  · rw [TreeMap.get_insert, if_pos rfl, Option.getD_some, continued_entries, AcpInput.continued,
      and_iff_right (List.forall₂_same.mpr fun e _ => Unrevised.refl e)]
    split
    · rw [clearStreaming_text, if_pos rfl, Option.getD_none, List.nil_append, decide_eq_true_eq]
    · rw [List.append_right_eq_self, decide_eq_true_eq]
  · refine hkeys.insert (fun agent hagent => ?_) (fun agent hagent => ?_)
    · split
      · rfl
      · rw [TreeMap.get_insert, if_neg hagent.symm]
    · split
      · rfl
      · split
        · rfl
        · rw [TreeMap.get_insert, if_neg hagent.symm]

/-- A whole output that its turn has. -/
private theorem repeated_replay (h : Regular s) {whole : Str} {p : TimelineEntry → Bool}
    {f : TimelineEntry → TimelineEntry} (hany : s.entries.any p = true)
    (hf : ∀ e, (f e).text = some whole ∧ (f e).eventType = e.eventType ∧
      (f e).isComplete = e.isComplete ∧ (f e).success = e.success) :
    ReplaySpec (s.streamingTextByAgent[x.agentBucketKey]?.getD [] = [] &&
      (s.entries.reverse.find? p).any (·.text = some whole)) s
      ({ s with entries := updateLast p f s.entries }.clearStreaming x.agentBucketKey) where
  invisible := by
    rw [invisible_clearStreaming, forall₂_updateLast Unrevised.refl, Bool.and_eq_true,
      find?_any hany, and_comm, decide_eq_true_eq]
    refine and_congr_right fun _ => forall₂_congr fun e _ => ?_
    rw [decide_eq_true_eq]
    constructor
    · exact fun hu => hu.text.symm.trans (hf e).1
    · exact fun ht => ⟨(hf e).1.trans ht.symm, fun hc => (hf e).2.2.1.trans hc,
        fun b hb => (hf e).2.2.2.trans hb⟩
  regular := by
    refine ⟨forall_updateLast h.complete fun e he => ?_, (h.keys.setEntries _).clearStreaming _⟩
    rw [Sound, (hf e).2.1, (hf e).2.2.1]
    exact he

/-- A whole output of a turn that has none. -/
private theorem complete_replay (h : Regular s) {whole : Str} :
    ReplaySpec false s (applyComplete x whole s).1 := by
  have hnone : s.entries.any (isIncompleteOutput x.agentBucketKey) = false := by
    rw [List.any_eq_false]
    intro e he
    simp [not_isIncompleteOutput h.complete x.agentBucketKey e he]
  unfold applyComplete
  simp only [hnone, Bool.false_eq_true, if_false]
  refine ⟨iff_of_false (fun hinv => ?_) (by simp), fun e he => ?_,
    (h.keys.setEntries _).clearStreaming _⟩
  · have hlen := hinv.entries.length_eq
    simp at hlen
  · rcases List.mem_append.mp he with he | he
    · exact h.complete e he
    · obtain rfl := List.mem_singleton.mp he
      exact fun _ => rfl

/-- Thoughts. -/
private theorem thinking_replay (h : Regular s) {thought : Str} :
    ReplaySpec (s.entries.getLast?.any fun e => e.eventType = .thinking &&
      e.sender = x.agentBucketKey && e.text.isSome && thought = []) s
      (applyThinking x thought s) := by
  have hnew : ReplaySpec false s { s with entries := s.entries ++ [{ x.entry .thinking with
      text := some thought, model := x.model?, turnID := x.turnID }] } :=
    ReplaySpec.append h fun h => (by cases h)
  unfold applyThinking
  cases hlast : s.entries.getLast? with
  | none => exact hnew
  | some e =>
    simp only [Option.any_some]
    split
    · next hp =>
      rw [hp, Bool.true_and]
      have hne : s.entries ≠ [] := List.ne_nil_of_mem (List.mem_of_getLast? hlast)
      obtain ⟨es, hsplit⟩ : ∃ es, s.entries = es ++ [e] := by
        rw [List.getLast?_eq_some_getLast hne, Option.some.injEq] at hlast
        exact ⟨s.entries.dropLast, by rw [← hlast, List.dropLast_append_getLast]⟩
      refine ⟨?_, fun e' he' => ?_, h.keys.setEntries _⟩
      · rw [invisible_setEntries, hsplit, List.dropLast_concat, Bool.and_eq_true, decide_eq_true_eq]
        have hsame : List.Forall₂ Unrevised es es :=
          List.forall₂_same.mpr fun e _ => Unrevised.refl e
        constructor
        · intro hall
          have hu := (List.forall₂_iff_get.mp hall).2 es.length (by simp) (by simp)
          simp only [List.get_eq_getElem, List.getElem_append_right (Nat.le_refl _), Nat.sub_self,
            List.getElem_singleton] at hu
          have htext := hu.text
          cases hetext : e.text with
          | none =>
            rw [hetext] at htext
            cases htext
          | some text =>
            rw [hetext] at htext
            exact ⟨rfl, List.append_right_eq_self.mp (Option.some.inj htext)⟩
        · rintro ⟨hsome, rfl⟩
          refine List.rel_append hsame (.cons ⟨?_, id, fun _ hb => hb⟩ .nil)
          obtain ⟨text, htext⟩ := Option.isSome_iff_exists.mp hsome
          simp [htext]
      · rw [hsplit, List.dropLast_concat] at he'
        rcases List.mem_append.mp he' with he' | he'
        · exact h.complete e' (by simp [hsplit, he'])
        · obtain rfl := List.mem_singleton.mp he'
          exact h.complete e (by simp [hsplit])
    · next hp =>
      rw [Bool.not_eq_true] at hp
      rw [hp, Bool.false_and]
      exact hnew

/-- A change of the last row that fits, or a new row. -/
private theorem row_replay (h : Regular s) {p q : TimelineEntry → Bool}
    {f : TimelineEntry → TimelineEntry} {e : TimelineEntry} (hf : ∀ e, Sound e → Sound (f e))
    (hq : ∀ e, Unrevised e (f e) ↔ q e = true) (he : Sound e) :
    ReplaySpec ((s.entries.reverse.find? p).any q) s { s with
      entries := if s.entries.any p then updateLast p f s.entries else s.entries ++ [e] } := by
  split
  · next hany =>
    refine ReplaySpec.updateLast h hf ?_
    rw [find?_any hany]
    exact forall₂_congr fun e _ => hq e
  · next hany =>
    rw [find?_any_of_not hany]
    exact ReplaySpec.append h he

/-- A flushed segment is a complete output. -/
private theorem appendSegment_regular (h : Regular s) {sequence : Nat} :
    Regular (appendSegment T x sequence s) := by
  unfold appendSegment
  simp only
  split
  · exact h
  · exact (ReplaySpec.append h (fun _ => rfl)).regular

/-- A tool call. -/
private theorem toolUse_replay (h : Regular s) {toolID description toolName : Str}
    {content : List (Option Diff)} :
    ReplaySpec (s.streamingTextByAgent[x.agentBucketKey]?.getD [] = [] &&
      (s.entries.reverse.find? (isToolUse toolID)).any fun e =>
        description = [] || e.text = some description) s
      (applyToolUse T x toolID description toolName content s) := by
  -- the row, behind any flush
  have hrow : ∀ {s : TimelineState}, Regular s →
      ReplaySpec ((s.entries.reverse.find? (isToolUse toolID)).any fun e =>
        description = [] || e.text = some description) s
      { s with entries :=
          if s.entries.any (isToolUse toolID) then
            updateLast (isToolUse toolID) (fun e => applyDiff content
              { e with
                text := if description = [] then e.text else some description
                toolName := if toolName = [] then e.toolName else some toolName }) s.entries
          else s.entries ++ [applyDiff content { x.entry .toolUse with
            text := some description, toolID := some toolID, toolName := some toolName
            turnID := x.turnID }] } := by
    intro s h
    refine row_replay h (fun _ he => he) (fun e => ?_) (fun h => (by cases h))
    rw [Bool.or_eq_true, decide_eq_true_eq, decide_eq_true_eq]
    constructor
    · intro hu
      have htext := hu.text
      by_cases hd : description = []
      · exact Or.inl hd
      · exact Or.inr (htext.symm.trans (if_neg hd))
    · refine fun hd => ⟨?_, id, fun _ hb => hb⟩
      change (if description = [] then e.text else some description) = e.text
      split
      · rfl
      · next hne => exact (hd.resolve_left hne).symm
  rw [← h.keys.bufferedText]
  unfold applyToolUse
  simp only
  by_cases htext : s.bufferedText x.agentBucketKey = []
  · simp only [htext, if_true, decide_true, Bool.true_and]
    exact hrow h
  · simp only [htext, if_false, decide_false, Bool.false_and]
    -- the buffer loses its text
    have hflushed : Regular { appendSegment T x 0 s with
        streamingTextByAgent :=
          (appendSegment T x 0 s).streamingTextByAgent.erase x.agentBucketKey } := by
      have hsegment : Regular (appendSegment T x 0 s) := appendSegment_regular h
      refine ⟨hsegment.complete, fun agent hagent => ?_, hsegment.keys.models, hsegment.keys.turns⟩
      rw [TreeMap.get_erase]
      split
      · rfl
      · exact hsegment.keys.texts agent hagent
    refine ⟨iff_of_false (fun hinv => htext ?_) (by simp), (hrow hflushed).regular⟩
    have hbuffer := hinv.texts x.agentBucketKey
    rw [← h.keys.bufferedText] at hbuffer
    rw [← hbuffer]
    simp

/-- The agent is idle. -/
private theorem idle_replay (h : Regular s) :
    ReplaySpec (s.streamingTextByAgent[x.agentBucketKey]?.getD [] = []) s (applyIdle T x s).1 := by
  have hclose : ∀ e, Unrevised e (if isOpenTool x.agentBucketKey e then
      { e with isComplete := true, success := e.success.or (some true) } else e) := by
    intro e
    split
    · refine ⟨rfl, fun _ => rfl, fun b hb => ?_⟩
      rw [Option.mem_def.mp hb]
      rfl
    · exact Unrevised.refl e
  have hsound : ∀ {es : List TimelineEntry}, (∀ e ∈ es, Sound e) → ∀ e ∈ es.map fun e =>
      if isOpenTool x.agentBucketKey e then
        { e with isComplete := true, success := e.success.or (some true) } else e, Sound e := by
    intro es hes e he
    obtain ⟨e₀, he₀, rfl⟩ := List.mem_map.mp he
    split
    · exact fun _ => rfl
    · exact hes e₀ he₀
  have hsegment : Regular (appendSegment T x x.envelopeSequence s) := appendSegment_regular h
  rw [← h.keys.bufferedText]
  unfold applyIdle
  refine ⟨?_, hsound hsegment.complete, (hsegment.keys.clearStreaming _).setEntries _⟩
  rw [decide_eq_true_eq]
  constructor
  · intro hinv
    rw [h.keys.bufferedText, ← hinv.texts x.agentBucketKey]
    simp
  · intro htext
    have hsame : appendSegment T x x.envelopeSequence s = s := by
      unfold appendSegment
      simp [htext]
    simp only [hsame]
    refine (invisible_clearStreaming (s := s)).mpr ⟨?_, by rw [← h.keys.bufferedText, htext]⟩
    rw [List.forall₂_map_right_iff]
    exact List.forall₂_same.mpr fun e _ => hclose e

/-- A status that is set is not reverted when it was not set or was the same. -/
private theorem unrevised_success {e e' : TimelineEntry} {success : Bool} (htext : e'.text = e.text)
    (hcomplete : e'.isComplete = true) (hsuccess : e'.success = some success) :
    Unrevised e e' ↔ (e.success.all (· = success)) = true := by
  constructor
  · intro hu
    rw [Option.all_eq_true]
    intro b hb
    rw [decide_eq_true_eq]
    exact Option.some.inj ((hu.success b hb).symm.trans hsuccess)
  · refine fun hall => ⟨htext, fun _ => hcomplete, fun b hb => ?_⟩
    rw [hsuccess, of_decide_eq_true ((Option.all_eq_true _ _).mp hall b hb)]

/-- An event that has no entry. -/
private theorem event_replay (h : Regular s) :
    ReplaySpec (settledEvent s x) s (applyEvent T x s).1 := by
  have hsound : ∀ {e : TimelineEntry}, e.eventType ≠ .output → Sound e :=
    fun hne htype => absurd htype hne
  unfold settledEvent applyEvent
  cases x.event with
  | output text isComplete =>
    cases isComplete with
    | false =>
      simp only [Bool.false_eq_true, if_false]
      convert @delta_replay s x h text using 1
    | true => exact complete_replay h
  | thinking thought => exact thinking_replay h
  | toolUse toolID description toolName content => exact toolUse_replay h
  | toolResult toolID success summary content =>
    refine row_replay h (fun _ _ _ => rfl) (fun e => ?_) (hsound fun h => (by cases h))
    exact unrevised_success rfl rfl rfl
  | error message => exact ReplaySpec.append h (hsound fun h => (by cases h))
  | permissionRequest requestID description toolName =>
    simp only
    split
    · next hany =>
      rw [hany]
      exact ReplaySpec.refl h
    · next hany =>
      rw [Bool.not_eq_true] at hany
      rw [hany]
      exact ReplaySpec.append h (hsound fun h => (by cases h))
  | planUpdate plan =>
    refine row_replay h (fun _ he => he) (fun e => ?_) (hsound fun h => (by cases h))
    rw [decide_eq_true_eq]
    exact ⟨fun hu => hu.text.symm, fun ht => ⟨ht.symm, id, fun _ hb => hb⟩⟩
  | statusChange idle =>
    cases idle with
    | true =>
      simp only [Bool.not_true, Bool.false_or, if_true]
      exact idle_replay h
    | false => exact ReplaySpec.refl h
  | availableCommands commands =>
    simp only
    split
    · refine ⟨iff_of_true ?_ rfl, h.complete, ⟨h.keys.texts, h.keys.models, h.keys.turns⟩⟩
      exact ⟨List.forall₂_same.mpr fun e _ => Unrevised.refl e, fun _ => rfl⟩
    · exact ReplaySpec.refl h
  | raw => exact ReplaySpec.refl h

/-- An event of an agent. -/
private theorem acp_replay (h : Regular s) :
    ReplaySpec (settledAcp s x) s (applyAcp T x s).1 := by
  unfold settledAcp applyAcp
  cases hrep : x.repeatedOutput? s with
  | some whole =>
    refine repeated_replay h ?_ fun e => ⟨rfl, rfl, rfl, rfl⟩
    -- the entry that the guard has found
    unfold AcpInput.repeatedOutput? at hrep
    split at hrep
    · next hturn =>
      split at hrep
      · next hp =>
        rw [Bool.and_eq_true] at hp
        rw [hturn]
        exact hp.2
      · cases hrep
    · cases hrep
  | none =>
    simp only
    split
    · next hseen =>
      rw [hseen, Bool.true_or]
      exact ReplaySpec.refl h
    · next hseen =>
      rw [Bool.not_eq_true] at hseen
      rw [hseen, Bool.false_or]
      exact event_replay h

end Events

/-! ## Messages, rows of the history and the rest -/

section Messages

variable {T} {s : TimelineState}

/-- A live message. -/
private theorem live_replay (h : Regular s) (l : LiveMessageInput) :
    ReplaySpec (s.entries.any (·.id = some l.messageID) ||
      s.entries.any fun e => l.clientLocalID.any fun c => e.clientID = some c) s
      (applyLive l s).1 := by
  unfold applyLive
  split
  · next hseen =>
    rw [hseen, Bool.true_or]
    exact ReplaySpec.refl h
  next hseen =>
  rw [Bool.not_eq_true] at hseen
  rw [hseen, Bool.false_or]
  simp only
  split
  · next hlocal =>
    rw [hlocal]
    refine ReplaySpec.updateFirst h (fun _ he => ?_) (iff_of_true (fun e _ => ?_) rfl)
    · exact he
    · exact ⟨rfl, id, fun _ hb => hb⟩
  · next hlocal =>
    rw [Bool.not_eq_true] at hlocal
    rw [hlocal]
    exact ReplaySpec.append h fun _ => rfl

/-- A local prompt. -/
private theorem local_replay (h : Regular s) (p : LocalPromptInput) :
    ReplaySpec (s.entries.any (·.clientID = some p.clientID)) s (applyLocal p s).1 := by
  unfold applyLocal
  split
  · next hseen =>
    rw [hseen]
    exact ReplaySpec.refl h
  · next hseen =>
    rw [Bool.not_eq_true] at hseen
    rw [hseen]
    exact ReplaySpec.append h fun _ => rfl

/-- The resolution of a permission. -/
private theorem permission_replay (h : Regular s) (r : PermissionResolutionInput) :
    ReplaySpec ((s.entries.find? (isPermission r.requestID)).all fun e =>
      e.success.all (· = r.granted)) s (applyPermission r s).1 := by
  unfold applyPermission
  split
  · refine ReplaySpec.updateFirst h (fun _ _ _ => rfl) ?_
    rw [Option.all_eq_true]
    exact forall₂_congr fun e _ => unrevised_success rfl rfl rfl
  · next hany =>
    have hnone : s.entries.find? (isPermission r.requestID) = none := by
      rw [List.find?_eq_none]
      exact fun e he hp => hany (List.any_eq_true.mpr ⟨e, he, hp⟩)
    rw [hnone]
    exact ReplaySpec.refl h

/-- A persisted reply. -/
private theorem persistedReply_replay (h : Regular s) (reply : PersistedReplyInput) :
    ReplaySpec true s (applyPersistedReply T reply s).1 := by
  unfold applyPersistedReply
  split
  · exact ReplaySpec.refl h
  · split
    · next entries hstamp => exact (ReplaySpec.refl h).sameFace (stampReply_sameFace T hstamp)
    · exact (ReplaySpec.refl h).sameFace (List.forall₂_same.mpr fun e _ => SameFace.refl e)

/-- The entries of a row that settles show the same, and otherwise one more entry or another text
    shows. -/
private theorem row_settled (input : HistoryInput) (es : List TimelineEntry) :
    (settledRow T input es = true → List.Forall₂ Unrevised es (applyHistoryRow T input es)) ∧
      (settledRow T input es = false →
        ¬ List.Forall₂ (fun e e' => e'.text = e.text) es (applyHistoryRow T input es)) := by
  have hquiet : ∀ {p : TimelineEntry → Bool} {f : TimelineEntry → TimelineEntry},
      (∀ e, Unrevised e (f e)) → List.Forall₂ Unrevised es (updateFirst p f es) :=
    fun hf => (forall₂_updateFirst Unrevised.refl).mpr fun e _ => hf e
  unfold settledRow applyHistoryRow
  simp only
  split
  · next h1 =>
    simp only [h1, Bool.true_or]
    exact ⟨fun _ => hquiet fun e => ⟨rfl, id, fun _ hb => hb⟩, fun h => (by cases h)⟩
  next h1 =>
  split
  · next h2 =>
    simp only [h2, Bool.or_true, Bool.true_or]
    exact ⟨fun _ => hquiet fun e => ⟨rfl, id, fun _ hb => hb⟩, fun h => (by cases h)⟩
  next h2 =>
  split
  · next h3 =>
    simp only [h3, Bool.or_true, Bool.true_or]
    exact ⟨fun _ => hquiet fun e => ⟨rfl, id, fun _ hb => hb⟩, fun h => (by cases h)⟩
  next h3 =>
  rw [Bool.not_eq_true] at h1 h2 h3
  simp only [h1, h2, h3, Bool.false_or]
  split
  · next h4 =>
    -- a fragment is shorter than the row
    simp only [h4, Bool.not_true, Bool.false_and]
    refine ⟨fun h => (by cases h), fun _ hall => ?_⟩
    replace hall := (forall₂_updateFirst (R := fun e e' => e'.text = e.text) fun _ => rfl).mp hall
    rw [Bool.and_eq_true] at h4
    obtain ⟨e, he⟩ : ∃ e, es.find? (isFragment T input) = some e := by
      rw [← Option.isSome_iff_exists, List.find?_isSome]
      obtain ⟨e, he, hp⟩ := List.any_eq_true.mp h4.2
      exact ⟨e, he, hp⟩
    have htext := hall e he
    have hp := List.find?_some he
    rw [isFragment, ← htext] at hp
    simp at hp
  next h4 =>
  rw [Bool.not_eq_true] at h4
  simp only [h4, Bool.not_false, Bool.true_and]
  split
  · next h5 =>
    rw [h5]
    exact ⟨fun _ => hquiet fun e => ⟨rfl, id, fun _ hb => hb⟩, fun h => (by cases h)⟩
  · next h5 =>
    rw [Bool.not_eq_true] at h5
    rw [h5]
    refine ⟨fun h => (by cases h), fun _ hall => ?_⟩
    have hlen := hall.length_eq
    rw [(List.perm_insertionSort _ _).length_eq] at hlen
    simp at hlen

/-- Outputs stay complete. -/
private theorem row_sound (input : HistoryInput) {es : List TimelineEntry}
    (h : ∀ e ∈ es, Sound e) : ∀ e ∈ applyHistoryRow T input es, Sound e := by
  have hkeep : ∀ {p : TimelineEntry → Bool} {f : TimelineEntry → TimelineEntry},
      (∀ e, Sound e → Sound (f e)) → ∀ e ∈ updateFirst p f es, Sound e :=
    fun hf => forall_updateFirst h fun e he _ => hf e (h e he)
  unfold applyHistoryRow
  simp only
  split
  · exact hkeep fun e he => he
  split
  · exact hkeep fun e he => he
  split
  · exact hkeep fun e he => he
  split
  · exact hkeep fun e he => he
  split
  · exact hkeep fun e he => he
  · intro e he
    rcases List.mem_append.mp ((List.perm_insertionSort _ _).mem_iff.mp he) with he | he
    · exact h e he
    · obtain rfl := List.mem_singleton.mp he
      exact fun _ => rfl

/-- A row of the history. -/
private theorem history_replay (h : Regular s) (input : HistoryInput) :
    ReplaySpec (settledRow T input s.entries && settledStream T s input) s
      (applyHistory T input s).1 := by
  obtain ⟨hyes, hno⟩ := row_settled (T := T) input s.entries
  have hsound := row_sound (T := T) input h.complete
  have hclose : ∀ e, Unrevised e
      (if isOpenTool (input.senderActorID.getD []) e && e.turnID = input.turnID then
        { e with isComplete := true } else e) := by
    intro e
    split
    · exact ⟨rfl, fun _ => rfl, fun _ hb => hb⟩
    · exact Unrevised.refl e
  -- what the row does, and what it leaves of the stream
  have hspec : ∀ {s' : TimelineState} (f : TimelineEntry → TimelineEntry),
      s'.entries = (applyHistoryRow T input s.entries).map f → (∀ e, Unrevised e (f e)) →
      ((∀ agent : Str, s'.streamingTextByAgent[agent]?.getD [] =
        s.streamingTextByAgent[agent]?.getD []) ↔ settledStream T s input = true) →
      (Invisible s s' ↔ (settledRow T input s.entries && settledStream T s input) = true) := by
    intro s' f hentries hf hstream
    rw [Bool.and_eq_true, ← hstream]
    constructor
    · intro hinv
      refine ⟨?_, hinv.texts⟩
      by_contra hrow
      rw [Bool.not_eq_true] at hrow
      refine hno hrow ?_
      have hall := hinv.entries
      rw [hentries, List.forall₂_map_right_iff] at hall
      exact hall.imp fun e e' hu => (hf e').text.symm.trans hu.text
    · rintro ⟨hrow, htexts⟩
      refine ⟨?_, htexts⟩
      rw [hentries, List.forall₂_map_right_iff]
      exact (hyes hrow).imp fun e e' hu => hu.trans (hf e')
  have hstay : ∀ agent : Str, s.streamingTextByAgent[agent]?.getD [] =
      s.streamingTextByAgent[agent]?.getD [] := fun _ => rfl
  have hclear : (∀ agent : Str, (s.clearStreaming (input.senderActorID.getD [])).streamingTextByAgent[
      agent]?.getD [] = s.streamingTextByAgent[agent]?.getD []) ↔
      s.streamingTextByAgent[input.senderActorID.getD []]?.getD [] = [] := by
    constructor
    · intro hall
      rw [← hall, clearStreaming_text, if_pos rfl, Option.getD_none]
    · intro hempty agent
      rw [clearStreaming_text]
      split
      · next hagent => rw [← hagent, hempty, Option.getD_none]
      · rfl
  have hsame : applyHistoryRow T input s.entries = (applyHistoryRow T input s.entries).map id :=
    (List.map_id _).symm
  unfold applyHistory
  simp only
  split
  · next hquiet =>
    refine ⟨hspec id hsame Unrevised.refl (iff_of_true hstay ?_), hsound, h.keys.setEntries _⟩
    rw [settledStream, hquiet]
    rfl
  next hquiet =>
  rw [Bool.not_eq_true] at hquiet
  split
  · next hcloses =>
    refine ⟨hspec _ rfl hclose (hclear.trans ?_), fun e he => ?_,
      ((h.keys.setEntries _).clearStreaming _).setEntries _⟩
    · simp only [settledStream, hquiet, hcloses, Bool.false_or, Bool.not_true, Bool.false_and,
        Bool.or_false, decide_eq_true_eq]
    · obtain ⟨e₀, he₀, rfl⟩ := List.mem_map.mp he
      split
      · exact fun _ => rfl
      · exact hsound e₀ he₀
  next hcloses =>
  rw [Bool.not_eq_true] at hcloses
  split
  · next hclears =>
    refine ⟨hspec id hsame Unrevised.refl (hclear.trans ?_), hsound,
      (h.keys.setEntries _).clearStreaming _⟩
    simp only [Bool.or_eq_true, decide_eq_true_eq] at hclears
    simp only [settledStream, hquiet, hcloses, Bool.false_or, Bool.not_false, Bool.true_and,
      Bool.or_eq_true, decide_eq_true_eq, Bool.not_eq_true']
    exact ⟨Or.inl, fun hs => hs.elim id fun hp => hclears.elim id fun hp' => by simp [hp] at hp'⟩
  · next hclears =>
    refine ⟨hspec id hsame Unrevised.refl (iff_of_true hstay ?_), hsound, h.keys.setEntries _⟩
    simp only [Bool.or_eq_true, decide_eq_true_eq, not_or, Bool.not_eq_true] at hclears
    simp only [settledStream, hquiet, hcloses, hclears.2, Bool.not_false, Bool.and_self, Bool.or_true]

/-- Every input. -/
private theorem apply_replay (h : Regular s) (x : TimelineInput) :
    ReplaySpec (Settled T s x) s (apply T x s) := by
  have hclaim : ∀ {settled : Bool} {r : TimelineState × Effect}, ReplaySpec settled s r.1 →
      ReplaySpec settled s (if r.2 = .entriesChanged then
        let claimed := claimPending T r.1.pendingPersistedReplies r.1.entries
        { r.1 with entries := claimed.1, pendingPersistedReplies := claimed.2 }
      else r.1) := by
    intro settled r hr
    split
    · exact hr.sameFace (claimPending_sameFace T r.1.pendingPersistedReplies r.1.entries)
    · exact hr
  cases x with
  | acp x => exact hclaim (acp_replay h)
  | liveMessage l => exact hclaim (live_replay h l)
  | historyMessage input => exact hclaim (history_replay h input)
  | localPrompt p => exact hclaim (local_replay h p)
  | permissionResolution r => exact hclaim (permission_replay h r)
  | persistedReply reply => exact persistedReply_replay h reply

end Messages

/-! ## Replays -/

/-- The timelines that a run reaches are regular. -/
private theorem run_regular (T : SwiftText) (xs : List TimelineInput) :
    Regular ((reducer T).run xs) := by
  refine @Machine.invariant_runFrom _ _ (reducer T) (fun _ _ => True) Regular
    (fun s x h _ => (apply_replay h x).regular) _ xs ?_ ((reducer T).steps_true _ xs)
  exact ⟨fun _ he => absurd he List.not_mem_nil, fun _ _ => Std.ExtTreeMap.getElem?_empty,
    fun _ _ => Std.ExtTreeMap.getElem?_empty, fun _ _ => Std.ExtTreeMap.getElem?_empty⟩

/-- In every timeline that a run has reached an input is replayed invisibly exactly when the timeline
    has settled for it, and a replay of many inputs is invisible as a whole when it has for each. -/
theorem replay_invisible_iff (T : SwiftText) (xs : List TimelineInput) :
    (∀ x, Invisible ((reducer T).run xs) (apply T x ((reducer T).run xs)) ↔
      Settled T ((reducer T).run xs) x = true) ∧
    ∀ replay, (reducer T).Steps (fun s x => Settled T s x = true) ((reducer T).run xs) replay →
      Invisible ((reducer T).run xs) ((reducer T).run (xs ++ replay)) := by
  refine ⟨fun x => (apply_replay (run_regular T xs) x).invisible, fun replay hsteps => ?_⟩
  have hrun : ∀ (replay : List TimelineInput) (s : TimelineState), Regular s →
      (reducer T).Steps (fun s x => Settled T s x = true) s replay →
        Invisible s ((reducer T).runFrom s replay) := by
    intro replay
    induction replay with
    | nil => exact fun s _ _ => Invisible.refl s
    | cons x replay ih =>
      intro s hs hsteps
      have hspec := apply_replay (T := T) hs x
      exact (hspec.invisible.mpr hsteps.1).trans (ih _ hspec.regular hsteps.2)
  have happend : (reducer T).run (xs ++ replay) = (reducer T).runFrom ((reducer T).run xs) replay :=
    (reducer T).runFrom_append _ xs replay
  rw [happend]
  exact hrun replay _ (run_regular T xs) hsteps

/-- A turn with its whole reply and a message of a person. -/
def recordedTurn : List TimelineInput :=
  [.localPrompt { clientID := "m1".toList, senderActorID := "ann".toList, content := "hi".toList
                  createdAt := 1, replyToMessageID := none },
    .liveMessage { messageID := "m1".toList, clientLocalID := some "m1".toList
                   senderActorID := "ann".toList, content := "hi".toList, createdAt := 1
                   replyToMessageID := none },
    .acp (eventOf ['a'] 1 (.toolUse ['x'] ['d'] ['n'] [])),
    .acp (eventOf ['a'] 2 (.output "done".toList true)),
    .persistedReply { messageID := "m2".toList, senderActorID := ['a'], content := "done".toList
                      turnID := some ['t'] },
    .acp (eventOf ['a'] 3 (.statusChange true))]

/-- It is replayed invisibly from its echo on. -/
theorem replay_invisible_recordedTurn :
    (reducer plainText).Steps (fun s x => Settled plainText s x = true)
        ((reducer plainText).run recordedTurn) recordedTurn.tail ∧
      Invisible ((reducer plainText).run recordedTurn)
        ((reducer plainText).run (recordedTurn ++ recordedTurn.tail)) := by
  have hsteps : (reducer plainText).Steps (fun s x => Settled plainText s x = true)
      ((reducer plainText).run recordedTurn) recordedTurn.tail := by decide
  exact ⟨hsteps, (replay_invisible_iff plainText recordedTurn).2 recordedTurn.tail hsteps⟩

/-- The buffer has the text of a delta twice when the delta is replayed. -/
theorem delta_doubled :
    ¬ ∀ (xs : List TimelineInput) (x : TimelineInput), x ∈ xs → x.hasKey = true →
      Invisible ((reducer plainText).run xs) (apply plainText x ((reducer plainText).run xs)) := by
  intro h
  have hinv := h [.acp (eventOf ['a'] 1 (.output "ok".toList false))] _ List.mem_cons_self rfl
  exact absurd (hinv.texts ['a']) (by decide)

end TeamClu.Timeline
