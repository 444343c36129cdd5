import TeamClu.Native.ChannelTurn

/-!
# A turn ends on its last prompt

Key results:
* `supplements_answered`: a settlement that ends a turn is not that of the first prompt once the chat has handed the
  turn a supplement, nor that of a supplement with another behind it, and no supplement is accepted after it.
* `last_prompt_settles`: as long as supplements come under new ids, the settlement of the last prompt ends the turn
  with what the agent has said by then, and so does that of a prompt the turn has not heard of.
-/

namespace TeamClu.Runtime

/-! ## What is promised -/

/-- A turn that a settlement has ended was not ended by that of an earlier prompt. -/
structure GatewayTurn.Answered (t : GatewayTurn) : Prop where
  closed : t.settled.isSome → t.closed = true
  accepted : ∀ s ∈ t.settled, s.accepted = t.accepted
  notSuperseded : ∀ s ∈ t.settled, s.stamp ∉ t.superseded
  notFirst : ∀ s ∈ t.settled, t.accepted ≠ [] → s.stamp ≠ none
  notEarlier : ∀ s ∈ t.settled, ∀ x ∈ t.accepted.dropLast, s.stamp ≠ some x

/-- The id that an input brings: the stamp of an event, or the id of a supplement. -/
def TurnInput.id? : TurnInput → Option Str
  | .frame _ replyTo _ _ => replyTo
  | .append replyTo _ _ => some replyTo
  | _ => none

/-- The id of a supplement. -/
def TurnInput.supplement? : TurnInput → Option Str
  | .append replyTo _ _ => some replyTo
  | _ => none

/-- No supplement has an id that was seen before it. -/
def NewIds (is : List TurnInput) : Prop :=
  is.Pairwise fun i j => j.supplement? = none ∨ i.id? ≠ j.supplement?

instance (is : List TurnInput) : Decidable (NewIds is) := inferInstanceAs (Decidable (is.Pairwise _))

/-- The stamp of the last prompt, or one that was not seen. -/
def Awaited (t : GatewayTurn) (is : List TurnInput) (stamp : Option Str) : Prop :=
  stamp = t.accepted.getLast? ∨ stamp ≠ none ∧ ∀ i ∈ is, i.id? ≠ stamp

/-! ## Steps -/

variable {uuid : Nat → Str} {parseJson : Str → Option ParsedSessionAttach}

/-- What a round of the loop leaves alone: the supplements, and with them what a settlement has to be. -/
private structure Kept (t t' : GatewayTurn) (replyTo : Option Str) : Prop where
  expected : t'.expected = t.expected
  superseded : t'.superseded = t.superseded
  accepted : t'.accepted = t.accepted
  latestFrame : t'.latestFrame = t.latestFrame ∨ t'.latestFrame = replyTo
  settled : t'.settled = t.settled ∧ (t.closed = true → t'.closed = true) ∨
    t'.settled = some { stamp := replyTo, accepted := t.accepted } ∧ t'.closed = true ∧ replyTo ∉ t.superseded

private theorem kept_update (t : GatewayTurn) (due room : Bool) (replyTo : Option Str) :
    Kept t (t.update due room) replyTo := by
  unfold GatewayTurn.update
  dsimp only
  split_ifs
  · exact ⟨rfl, rfl, rfl, .inl rfl, .inl ⟨rfl, id⟩⟩
  · exact ⟨rfl, rfl, rfl, .inl rfl, .inl ⟨rfl, id⟩⟩

private theorem kept_absorb (t : GatewayTurn) (event : AcpEvent) (replyTo : Option Str) {currentCompletion : Bool}
    (hcurrent : currentCompletion = true → replyTo ∉ t.superseded) (due room : Bool) :
    Kept t (t.absorb uuid parseJson event replyTo currentCompletion due room) replyTo := by
  unfold GatewayTurn.absorb
  dsimp only
  split_ifs with hend
  · exact ⟨rfl, rfl, rfl, .inl rfl, .inr ⟨rfl, rfl, hcurrent hend.2⟩⟩
  · obtain ⟨hexpected, hsuperseded, haccepted, hlatest, hsettled⟩ := kept_update
      { t with collector := (t.collector.absorb uuid parseJson event).1 }
      ((t.collector.absorb uuid parseJson event).2.2 || due) room replyTo
    exact ⟨hexpected, hsuperseded, haccepted, hlatest, hsettled⟩

private theorem kept_receive (t : GatewayTurn) (event : AcpEvent) (replyTo : Option Str) (due room : Bool) :
    Kept t (t.receive uuid parseJson event replyTo due room) replyTo := by
  unfold GatewayTurn.receive
  dsimp only
  have hcurrent : decide (replyTo ∉ t.superseded) = true → replyTo ∉ t.superseded := of_decide_eq_true
  generalize decide (replyTo ∉ t.superseded) = currentCompletion at hcurrent ⊢
  have hseen : Kept t (if currentCompletion = true then { t with latestFrame := replyTo } else t) replyTo := by
    split_ifs
    · exact ⟨rfl, rfl, rfl, .inr rfl, .inl ⟨rfl, id⟩⟩
    · exact ⟨rfl, rfl, rfl, .inl rfl, .inl ⟨rfl, id⟩⟩
  generalize (if currentCompletion = true then { t with latestFrame := replyTo } else t) = seen at hseen ⊢
  -- the supplements are the same before and after the frame is noted
  have hend {t' : GatewayTurn} (h : Kept seen t' replyTo) : Kept t t' replyTo := by
    refine ⟨h.expected.trans hseen.expected, h.superseded.trans hseen.superseded, h.accepted.trans hseen.accepted,
      ?_, ?_⟩
    · rcases h.latestFrame with hl | hl
      · rw [hl]
        exact hseen.latestFrame
      · exact .inr hl
    · rcases h.settled with ⟨hs, hc⟩ | hs
      · rcases hseen.settled with ⟨hs', hc'⟩ | ⟨hs', hc', hnot⟩
        · exact .inl ⟨hs.trans hs', fun h => hc (hc' h)⟩
        · exact .inr ⟨hs.trans hs', hc hc', hnot⟩
      · rw [hseen.accepted, hseen.superseded] at hs
        exact .inr hs
  have hrest (event : AcpEvent) :
      Kept t (seen.absorb uuid parseJson event replyTo currentCompletion due room) replyTo :=
    hend (kept_absorb seen event replyTo (fun h => by rw [hseen.superseded]; exact hcurrent h) due room)
  cases event with
  | error err =>
    dsimp only
    split_ifs
    · exact hseen
    · split
      · exact hrest _
      · exact ⟨hseen.expected, hseen.superseded, hseen.accepted, hseen.latestFrame, hseen.settled⟩
      · exact ⟨hseen.expected, hseen.superseded, hseen.accepted, hseen.latestFrame, hseen.settled⟩
  | thinking text => exact hrest _
  | output text => exact hrest _
  | toolUse tu => exact hrest _
  | toolResult tr => exact hrest _
  | statusChange oldStatus newStatus => exact hrest _
  | other => exact hrest _

/-- A step accepts a supplement, or leaves the supplements alone. -/
private theorem step_cases (t : GatewayTurn) (i : TurnInput) :
    Kept t (t.step uuid parseJson i) i.id? ∨
      ∃ replyTo, i.supplement? = some replyTo ∧ t.closed = false ∧
        t.step uuid parseJson i = { t with
          superseded := t.expected :: t.latestFrame :: t.superseded
          expected := some replyTo
          accepted := t.accepted ++ [replyTo] } := by
  have hsame (replyTo : Option Str) : Kept t t replyTo := ⟨rfl, rfl, rfl, .inl rfl, .inl ⟨rfl, id⟩⟩
  cases i with
  | frame event replyTo due room =>
    refine .inl ?_
    rw [GatewayTurn.step]
    split_ifs
    · exact hsame _
    · exact kept_receive t event replyTo due room
  | channelClosed =>
    refine .inl ?_
    rw [GatewayTurn.step]
    split_ifs
    · exact hsame _
    · unfold GatewayTurn.detach
      split
      · exact ⟨rfl, rfl, rfl, .inl rfl, .inl ⟨rfl, id⟩⟩
      · exact ⟨rfl, rfl, rfl, .inl rfl, .inl ⟨rfl, id⟩⟩
  | elapsed =>
    refine .inl ?_
    rw [GatewayTurn.step]
    split_ifs
    · exact hsame _
    · exact ⟨rfl, rfl, rfl, .inl rfl, .inl ⟨rfl, id⟩⟩
  | close =>
    refine .inl ?_
    rw [GatewayTurn.step]
    split_ifs
    · exact ⟨rfl, rfl, rfl, .inl rfl, .inl ⟨rfl, fun _ => rfl⟩⟩
    · exact hsame _
  -- the one input that can accept
  | append replyTo found sent =>
    rw [GatewayTurn.step, GatewayTurn.append]
    split_ifs with hrefused
    · exact .inl (hsame _)
    · rw [not_or, Bool.not_eq_true] at hrefused
      exact .inr ⟨replyTo, rfl, hrefused.1, rfl⟩
  | markIdleTimeoutDetach approvalPending => exact .inl ⟨rfl, rfl, rfl, .inl rfl, .inl ⟨rfl, id⟩⟩
  | removed => exact .inl ⟨rfl, rfl, rfl, .inl rfl, .inl ⟨rfl, id⟩⟩

/-! ## Results -/

/-- What the state of the supplements says. -/
private structure SupplementInv (t : GatewayTurn) : Prop where
  expected : t.expected = t.accepted.getLast?
  first : t.accepted ≠ [] → none ∈ t.superseded
  earlier : ∀ x ∈ t.accepted.dropLast, some x ∈ t.superseded
  settled : ∀ s ∈ t.settled, t.closed = true ∧ s.accepted = t.accepted ∧ s.stamp ∉ t.superseded

private theorem SupplementInv.step {t : GatewayTurn} (h : SupplementInv t) (i : TurnInput) :
    SupplementInv (t.step uuid parseJson i) := by
  rcases @step_cases uuid parseJson t i with hkept | ⟨replyTo, -, hopen, hstep⟩
  · refine ⟨?_, ?_, ?_, fun s hs => ?_⟩
    · rw [hkept.expected, hkept.accepted]
      exact h.expected
    · rw [hkept.accepted, hkept.superseded]
      exact h.first
    · rw [hkept.accepted, hkept.superseded]
      exact h.earlier
    · rw [hkept.accepted, hkept.superseded]
      rcases hkept.settled with ⟨hsame, hclosed⟩ | ⟨hnew, hclosed, hnot⟩
      · rw [hsame] at hs
        obtain ⟨hc, haccepted, hstamp⟩ := h.settled s hs
        exact ⟨hclosed hc, haccepted, hstamp⟩
      · rw [hnew] at hs
        cases hs
        exact ⟨hclosed, rfl, hnot⟩
  · -- the prompt before this one is superseded, and those before it were already
    rw [hstep]
    refine ⟨by simp, fun _ => ?_, fun x hx => ?_, fun s hs => ?_⟩
    · by_cases hnil : t.accepted = []
      · have hnone : t.expected = none := by rw [h.expected, hnil]; rfl
        rw [hnone]
        exact List.mem_cons_self
      · exact List.mem_cons_of_mem _ (List.mem_cons_of_mem _ (h.first hnil))
    · rw [List.dropLast_concat] at hx
      obtain ⟨earlier, last, hlast⟩ := List.eq_nil_or_concat t.accepted |>.resolve_left (List.ne_nil_of_mem hx)
      rw [List.concat_eq_append] at hlast
      have hexpected := h.expected
      have hearlier := h.earlier
      rw [hlast] at hx
      rw [hlast, List.getLast?_concat] at hexpected
      rw [hlast, List.dropLast_concat] at hearlier
      rcases List.mem_append.mp hx with hx | hx
      · exact List.mem_cons_of_mem _ (List.mem_cons_of_mem _ (hearlier x hx))
      · rw [hexpected, List.mem_singleton.mp hx]
        exact List.mem_cons_self
    · rw [(h.settled s hs).1] at hopen
      cases hopen

private theorem supplementInv_run (agg : TurnAggregator) (is : List TurnInput) :
    SupplementInv ((gatewayTurn uuid parseJson agg).run is) := by
  have hinit : SupplementInv (gatewayTurn uuid parseJson agg).init :=
    ⟨rfl, fun h => absurd rfl h, fun x hx => absurd hx List.not_mem_nil, fun s hs => by cases hs⟩
  exact Machine.invariant_runFrom (I := SupplementInv) (fun _ i h _ => h.step i) hinit (Machine.steps_true _ _ is)

/-- A turn ends on the settlement of its last prompt, or on that of a prompt which the chat did not hand to it. -/
theorem supplements_answered (uuid : Nat → Str) (parseJson : Str → Option ParsedSessionAttach) (agg : TurnAggregator)
    (is : List TurnInput) : ((gatewayTurn uuid parseJson agg).run is).Answered := by
  have hrun := @supplementInv_run uuid parseJson agg is
  refine ⟨fun hs => ?_, fun s hs => (hrun.settled s hs).2.1, fun s hs => (hrun.settled s hs).2.2,
    fun s hs hne hnone => ?_, fun s hs x hx heq => ?_⟩
  · obtain ⟨s, hs⟩ := Option.isSome_iff_exists.mp hs
    exact (hrun.settled s hs).1
  · exact (hrun.settled s hs).2.2 (hnone ▸ hrun.first hne)
  · exact (hrun.settled s hs).2.2 (heq ▸ hrun.earlier x hx)

/-- Every stamp that the turn keeps was brought by an input, and the expected one is not superseded. -/
private structure StampInv (t : GatewayTurn) (is : List TurnInput) : Prop where
  superseded : ∀ s ∈ t.superseded, s = none ∨ ∃ i ∈ is, i.id? = s
  latestFrame : t.latestFrame = none ∨ ∃ i ∈ is, i.id? = t.latestFrame
  expected : t.expected = none ∨ ∃ i ∈ is, i.id? = t.expected
  expectedOpen : t.expected ∉ t.superseded

private theorem StampInv.snoc {t : GatewayTurn} {is : List TurnInput} (h : StampInv t is) {i : TurnInput}
    (hnew : ∀ j ∈ is, i.supplement? = none ∨ j.id? ≠ i.supplement?) :
    StampInv (t.step uuid parseJson i) (is ++ [i]) := by
  have hmore {s : Option Str} (hs : s = none ∨ ∃ j ∈ is, j.id? = s) : s = none ∨ ∃ j ∈ is ++ [i], j.id? = s :=
    hs.imp_right fun ⟨j, hj, hid⟩ => ⟨j, List.mem_append_left _ hj, hid⟩
  rcases @step_cases uuid parseJson t i with hkept | ⟨replyTo, hsupplement, -, hstep⟩
  · refine ⟨?_, ?_, ?_, ?_⟩
    · rw [hkept.superseded]
      exact fun s hs => hmore (h.superseded s hs)
    · rcases hkept.latestFrame with hl | hl
      · rw [hl]
        exact hmore h.latestFrame
      · rw [hl]
        exact .inr ⟨i, List.mem_append_right _ (List.mem_singleton_self _), rfl⟩
    · rw [hkept.expected]
      exact hmore h.expected
    · rw [hkept.expected, hkept.superseded]
      exact h.expectedOpen
  · rw [hstep]
    have hid : i.id? = some replyTo := by
      cases i with
      | append => exact hsupplement
      | frame => cases hsupplement
      | channelClosed => cases hsupplement
      | elapsed => cases hsupplement
      | close => cases hsupplement
      | markIdleTimeoutDetach => cases hsupplement
      | removed => cases hsupplement
    -- the new id is none of those that came before
    have hold {s : Option Str} (hs : s = none ∨ ∃ j ∈ is, j.id? = s) : some replyTo ≠ s := by
      rintro rfl
      obtain ⟨j, hj, hjd⟩ := hs.resolve_left (by simp)
      rcases hnew j hj with hnone | hne
      · rw [hnone] at hsupplement
        cases hsupplement
      · exact hne (hjd.trans hsupplement.symm)
    have hself : i ∈ is ++ [i] := List.mem_append_right _ (List.mem_singleton_self _)
    refine ⟨fun s hs => ?_, hmore h.latestFrame, .inr ⟨i, hself, hid⟩, ?_⟩
    · rcases List.mem_cons.mp hs with rfl | hs
      · exact hmore h.expected
      · rcases List.mem_cons.mp hs with rfl | hs
        · exact hmore h.latestFrame
        · exact hmore (h.superseded s hs)
    · intro hmem
      rcases List.mem_cons.mp hmem with heq | hmem
      · exact hold h.expected heq
      · rcases List.mem_cons.mp hmem with heq | hmem
        · exact hold h.latestFrame heq
        · exact hold (h.superseded _ hmem) rfl

private theorem stampInv_run (agg : TurnAggregator) (is : List TurnInput) (hnew : NewIds is) :
    StampInv ((gatewayTurn uuid parseJson agg).run is) is := by
  induction is using List.reverseRecOn with
  | nil => exact ⟨fun s hs => absurd hs List.not_mem_nil, .inl rfl, .inl rfl, List.not_mem_nil⟩
  | append_singleton is i ih =>
    obtain ⟨hbefore, -, hlast⟩ := List.pairwise_append.mp hnew
    rw [Machine.run, Machine.runFrom_append]
    exact (ih hbefore).snoc fun j hj => hlast j hj i (List.mem_singleton_self _)

/-- A turn does not wait in vain: the settlement of its last prompt ends it with the text that has been collected once
    the settlement is absorbed, and so does that of a new prompt. -/
theorem last_prompt_settles (uuid : Nat → Str) (parseJson : Str → Option ParsedSessionAttach) (agg : TurnAggregator)
    (is : List TurnInput) (hnew : NewIds is) (stamp : Option Str)
    (hstamp : Awaited ((gatewayTurn uuid parseJson agg).run is) is stamp)
    (hopen : ((gatewayTurn uuid parseJson agg).run is).result = none) (due room : Bool) :
    (((gatewayTurn uuid parseJson agg).run is).step uuid parseJson
      (.frame (.statusChange .active .idle) stamp due room)).result =
        some (.ok (((gatewayTurn uuid parseJson agg).run is).collector.absorb uuid parseJson
          (.statusChange .active .idle)).1.text) := by
  have hstamps := @stampInv_run uuid parseJson agg is hnew
  have hexpected := (@supplementInv_run uuid parseJson agg is).expected
  generalize (gatewayTurn uuid parseJson agg).run is = t at *
  have hcurrent : stamp ∉ t.superseded := by
    rcases hstamp with rfl | ⟨hnone, hunseen⟩
    · rw [← hexpected]
      exact hstamps.expectedOpen
    · intro hmem
      rcases hstamps.superseded stamp hmem with hs | ⟨i, hi, hid⟩
      · exact hnone hs
      · exact hunseen i hi hid
  rw [GatewayTurn.step, hopen, Option.isSome_none, if_neg Bool.false_ne_true]
  unfold GatewayTurn.receive
  rw [decide_eq_true hcurrent]
  rfl

/-- A turn with a supplement, in which the settlement of the first prompt comes late. -/
private def supplemented : List TurnInput :=
  [.frame (.output ['a']) none false true, .append ['x'] true true,
    .frame (.statusChange .active .idle) none false true, .frame (.output ['b']) (some ['x']) false true]

/-- The settlement of the supplement ends the turn with the text of both prompts. -/
theorem last_prompt_settles_supplement :
    (((gatewayTurn (fun _ => []) (fun _ => none) {}).run supplemented).step (fun _ => []) (fun _ => none)
      (.frame (.statusChange .active .idle) (some ['x']) false true)).result =
        some (.ok (composeReply [['a'], ['b']] [])) :=
  (last_prompt_settles (fun _ => []) (fun _ => none) {} supplemented (by decide) (some ['x']) (.inl (by decide)) rfl
    false true).trans (congrArg (fun text : Str => some (Except.ok text)) (by decide))

end TeamClu.Runtime
