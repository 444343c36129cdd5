import TeamClu.ForStd.TreeMap
import TeamClu.Native.FeedItems

/-!
# What the walk of the chat feed finds

The variables of the walk are functions of the events seen so far: the open turn of an agent is what was
recorded after its last complete output (`openTurn`), each row belongs to the event that opened it (`openers`),
and every event is in a row or in an open turn.

Key results:

* `walked`: all of this holds after the walk
-/

namespace TeamClu.Feed

/-! ## What the events say -/

/-- The event is kept as runtime detail of an open turn. -/
def AgentEvent.records (e : AgentEvent) : Bool :=
  e.kind == .runtime || e.kind == .output && !e.isComplete

/-- The event ends the open turn of its agent. -/
def AgentEvent.closes (e : AgentEvent) : Bool := e.kind == .output && e.isComplete

/-- The key of the turn of an event. -/
def AgentEvent.key (e : AgentEvent) : Option Str := turnKey (ownerFor e) e.turnID

/-- The open turn of an agent: what was recorded after its last complete output. -/
def openTurn (events : List AgentEvent) (agent : Str) : List AgentEvent :=
  ((events.filter (ownerFor · == agent)).reverse.takeWhile (!·.closes)).reverse.filter (·.records)

/-- The turn id of the open turn of an agent. -/
def openTurnID (events : List AgentEvent) (agent : Str) : Option Str :=
  ((openTurn events agent).find? (·.turn ≠ [])).map (·.turn)

/-- The event opens a row: it is a row of its own, or the first complete output of its turn. -/
def opensRow (events : List AgentEvent) (e : AgentEvent) : Bool :=
  if e.closes then
    e.key == none || events.find? (fun x => x.closes && x.key == e.key) == some e
  else !e.records

/-- The events that open the rows. -/
def openers (events : List AgentEvent) : List AgentEvent := events.filter (opensRow events)

/-- The last complete output of the turn of an event. -/
def bubbleEnd (events : List AgentEvent) (x : AgentEvent) : AgentEvent :=
  if x.key = none then x
  else (events.filter fun y => y.closes && y.key == x.key).getLast?.getD x

/-- The row that an event opens, without its runtime events. -/
def rowOf (events : List AgentEvent) (x : AgentEvent) : FeedItem :=
  match x.kind with
  | .permissionRequest => .permission x
  | .planUpdate => .todo x
  | .error => .error x
  | .output => .completedTurn (FeedWalk.rowTurnID x) (ownerFor x) (bubbleEnd events x) []
  | .userPrompt | .runtime | .other => .userMessage x

/-- A row without its runtime events. -/
def FeedItem.face : FeedItem → FeedItem
  | completedTurn id agentID final _ => completedTurn id agentID final []
  | activeStream id agentID _ => activeStream id agentID []
  | item => item

/-- The events of a row. -/
def FeedItem.events : FeedItem → List AgentEvent
  | userMessage e => [e]
  | activeStream _ _ runtime => runtime
  | completedTurn _ _ final runtime => runtime ++ [final]
  | permission e => [e]
  | todo e => [e]
  | error e => [e]

/-! ## One more event -/

section Snoc

variable {events : List AgentEvent} {e x : AgentEvent} {agent : Str}

theorem closes_of_records (h : e.records = true) : e.closes = false := by
  unfold AgentEvent.records at h
  unfold AgentEvent.closes
  cases hk : e.kind <;> simp_all

theorem turnKey_eq_none {owner : Str} {t : Option Str} : turnKey owner t = none ↔ t.getD [] = [] := by
  cases t with
  | none => simp [turnKey]
  | some t => by_cases ht : t = [] <;> simp [turnKey, ht]

/-- The events of an open turn are its agent's, and recorded. -/
theorem mem_openTurn (h : x ∈ openTurn events agent) :
    x ∈ events ∧ ownerFor x = agent ∧ x.records = true := by
  obtain ⟨hmem, hr⟩ := List.mem_filter.mp h
  have hmem' := List.mem_reverse.mp ((List.takeWhile_prefix _).subset (List.mem_reverse.mp hmem))
  obtain ⟨hx, ho⟩ := List.mem_filter.mp hmem'
  exact ⟨hx, by simpa using ho, hr⟩

/-- The open turn after one more event. -/
theorem openTurn_snoc : openTurn (events ++ [e]) agent =
    if ownerFor e = agent then
      if e.closes then [] else openTurn events agent ++ if e.records then [e] else []
    else openTurn events agent := by
  unfold openTurn
  by_cases ho : ownerFor e = agent
  · by_cases hc : e.closes
    · simp [List.filter_append, ho, hc]
    · by_cases hr : e.records <;> simp [List.filter_append, ho, hc, hr]
  · simp [List.filter_append, ho]

theorem openTurn_snoc_of_other (hc : e.closes = false) (hr : e.records = false) :
    openTurn (events ++ [e]) agent = openTurn events agent := by
  rw [openTurn_snoc]
  simp [hc, hr]

/-- The id of the open turn after a recorded event. -/
theorem openTurnID_snoc_of_records (hr : e.records = true) : openTurnID (events ++ [e]) agent =
    if ownerFor e = agent then
      (openTurnID events agent).or (if e.turn ≠ [] then some e.turn else none)
    else openTurnID events agent := by
  unfold openTurnID
  rw [openTurn_snoc, closes_of_records hr]
  by_cases ho : ownerFor e = agent
  · rw [if_pos ho, if_pos ho, if_neg (by simp), if_pos hr, List.find?_append, Option.map_or,
      List.find?_singleton]
    by_cases ht : e.turn = [] <;> simp [ht]
  · simp [ho]

/-- Who opened a row still does, and the next event may open one. -/
theorem openers_snoc : openers (events ++ [e]) =
    openers events ++ if opensRow (events ++ [e]) e then [e] else [] := by
  unfold openers
  rw [List.filter_append, List.filter_singleton, Bool.cond_eq_ite]
  congr 1
  refine List.filter_congr fun x hx => ?_
  unfold opensRow
  split_ifs with hc
  · have hfound : (events.find? fun y => y.closes && y.key == x.key).isSome := by
      rw [List.find?_isSome]
      exact ⟨x, hx, by simp [hc]⟩
    obtain ⟨y, hy⟩ := Option.isSome_iff_exists.mp hfound
    rw [List.find?_append, hy]
    rfl
  · rfl

theorem opensRow_snoc_self (hnew : e ∉ events) : opensRow (events ++ [e]) e =
    if e.closes then e.key == none || (events.find? fun x => x.closes && x.key == e.key) == none
    else !e.records := by
  unfold opensRow
  split_ifs with hc
  · congr 1
    rw [List.find?_append]
    cases hf : events.find? fun x => x.closes && x.key == e.key with
    | none => simp [hc]
    | some y =>
      have hy : y ≠ e := by
        rintro rfl
        exact hnew (List.mem_of_find?_eq_some hf)
      simp [hy]
  · rfl

/-- The row of an earlier opener changes only with a complete output of its turn. -/
theorem rowOf_snoc (h : e.closes = false ∨ e.key = none ∨ x.key ≠ e.key ∨ x.closes = false)
    (hx : opensRow events x = true) : rowOf (events ++ [e]) x = rowOf events x := by
  unfold rowOf
  cases hk : x.kind with
  | output =>
    have hxc : x.closes = true := by
      by_contra hc
      have hr : x.records = true := by
        unfold AgentEvent.closes at hc
        unfold AgentEvent.records
        simpa [hk] using hc
      unfold opensRow at hx
      simp [hc, hr] at hx
    have hend : bubbleEnd (events ++ [e]) x = bubbleEnd events x := by
      unfold bubbleEnd
      split_ifs with hnone
      · rfl
      · have hnot : (e.closes && e.key == x.key) = false := by
          rcases h with hc | hn | hne | hc
          · simp [hc]
          · have hne : e.key ≠ x.key := fun heq => hnone (heq ▸ hn)
            simp [hne]
          · simp [Ne.symm hne]
          · simp [hxc] at hc
        rw [List.filter_append, List.filter_singleton, hnot]
        simp
    simp only [hend]
  | _ => rfl

/-- A complete output is the last one of its turn. -/
theorem bubbleEnd_snoc (hc : e.closes = true) (hkey : x.key = e.key) (hsome : e.key ≠ none) :
    bubbleEnd (events ++ [e]) x = e := by
  unfold bubbleEnd
  rw [if_neg (hkey ▸ hsome), List.filter_append, List.filter_singleton, hkey, hc]
  simp

/-- The row of a complete output. -/
theorem rowOf_closes (hc : x.closes = true) : rowOf events x =
    .completedTurn (FeedWalk.rowTurnID x) (ownerFor x) (bubbleEnd events x) [] := by
  unfold AgentEvent.closes at hc
  unfold rowOf
  cases hk : x.kind <;> simp_all

/-- The first complete output of a turn opens its row. -/
theorem exists_opener (hx : x ∈ events) (hc : x.closes = true) :
    ∃ y ∈ openers events, y.closes = true ∧ y.key = x.key ∧
      events.find? (fun z => z.closes && z.key == x.key) = some y := by
  have hsome : (events.find? fun z => z.closes && z.key == x.key).isSome := by
    rw [List.find?_isSome]
    exact ⟨x, hx, by simp [hc]⟩
  obtain ⟨y, hy⟩ := Option.isSome_iff_exists.mp hsome
  have hprop := List.find?_some hy
  rw [Bool.and_eq_true, beq_iff_eq] at hprop
  refine ⟨y, List.mem_filter.mpr ⟨List.mem_of_find?_eq_some hy, ?_⟩, hprop.1, hprop.2, hy⟩
  unfold opensRow
  rw [if_pos hprop.1, hprop.2, hy]
  simp

/-- A turn has one row. -/
theorem opener_unique {y : AgentEvent} (hx : x ∈ openers events) (hy : y ∈ openers events)
    (hxc : x.closes = true) (hyc : y.closes = true) (hkey : x.key = y.key) (hsome : x.key ≠ none) :
    x = y := by
  have hfind {z : AgentEvent} (hz : z ∈ openers events) (hzc : z.closes = true)
      (hzk : z.key = x.key) : events.find? (fun u => u.closes && u.key == x.key) = some z := by
    have hrow := (List.mem_filter.mp hz).2
    unfold opensRow at hrow
    rw [if_pos hzc, hzk] at hrow
    simpa [hsome] using hrow
  exact Option.some.inj ((hfind hx hxc rfl).symm.trans (hfind hy hyc hkey.symm))

end Snoc

/-! ## The walk -/

/-- What the variables of the walk hold once the events are seen. -/
structure Walked (events : List AgentEvent) (w : FeedWalk) : Prop where
  opens : ∀ a, w.openTurnsByAgent[a]? =
    if openTurn events a = [] then none else some (openTurn events a)
  first : ∀ a, w.openTurnFirstEventID[a]? = (openTurn events a).head?.map (·.id)
  turn : ∀ a, w.openTurnTurnIDByAgent[a]? = openTurnID events a
  index : ∀ key, w.completedTurnIndexByKey[key]? =
    (openers events).findIdx? fun x => x.closes && x.key == some key
  rows : w.result.map FeedItem.face = (openers events).map (rowOf events)
  counts : ∀ x, (w.result.flatMap FeedItem.events).count x + (openTurn events (ownerFor x)).count x =
    events.count x

section Steps

variable {events : List AgentEvent} {w : FeedWalk} {e : AgentEvent}

theorem walked_nil : Walked [] {} :=
  ⟨fun _ => rfl, fun _ => rfl, fun _ => rfl, fun _ => rfl, rfl, fun _ => rfl⟩

theorem Walked.getD_opens (h : Walked events w) (a : Str) :
    w.openTurnsByAgent[a]?.getD [] = openTurn events a := by
  rw [h.opens]
  split_ifs with hnil
  · exact hnil.symm
  · rfl

theorem Walked.length (h : Walked events w) : w.result.length = (openers events).length := by
  have hlen := congrArg List.length h.rows
  simpa using hlen

/-- A row of its own. -/
theorem Walked.push (h : Walked events w) (hnew : e ∉ events) (hc : e.closes = false)
    (hr : e.records = false) {row : FeedItem} (hface : row.face = rowOf (events ++ [e]) e)
    (hevents : row.events = [e]) : Walked (events ++ [e]) (w.push row) := by
  have hopen (a) : openTurn (events ++ [e]) a = openTurn events a := openTurn_snoc_of_other hc hr
  have hopeners : openers (events ++ [e]) = openers events ++ [e] := by
    rw [openers_snoc, opensRow_snoc_self hnew]
    simp [hc, hr]
  refine ⟨fun a => ?_, fun a => ?_, fun a => ?_, fun key => ?_, ?_, fun x => ?_⟩
  · rw [hopen]
    exact h.opens a
  · rw [hopen]
    exact h.first a
  · unfold openTurnID
    rw [hopen]
    exact h.turn a
  · rw [hopeners, List.findIdx?_append]
    simpa [FeedWalk.push, hc] using h.index key
  · rw [hopeners, List.map_append, FeedWalk.push, List.map_append, h.rows]
    congr 1
    · refine List.map_congr_left fun x hx => (rowOf_snoc (.inl hc) ?_).symm
      exact (List.mem_filter.mp hx).2
    · simp [hface]
  · rw [hopen, List.count_append, ← h.counts x, FeedWalk.push, List.flatMap_append,
      List.count_append]
    simp only [List.flatMap_cons, List.flatMap_nil, hevents, List.append_nil]
    omega

/-- An event kept for the open turn. -/
theorem Walked.recordOpenTurn (h : Walked events w) (hnew : e ∉ events) (hr : e.records = true) :
    Walked (events ++ [e]) (w.recordOpenTurn e (ownerFor e)) := by
  have hc : e.closes = false := closes_of_records hr
  have hopeners : openers (events ++ [e]) = openers events := by
    rw [openers_snoc, opensRow_snoc_self hnew]
    simp [hc, hr]
  have hopen (a) : openTurn (events ++ [e]) a =
      if ownerFor e = a then openTurn events a ++ [e] else openTurn events a := by
    rw [openTurn_snoc]
    simp [hc, hr]
  refine ⟨fun a => ?_, fun a => ?_, fun a => ?_, fun key => ?_, ?_, fun x => ?_⟩
  · rw [hopen, FeedWalk.recordOpenTurn, TreeMap.get_insert, h.getD_opens]
    split_ifs with ho hnil hnil
    · simp at hnil
    · rw [ho]
    · rw [h.opens, if_pos hnil]
    · rw [h.opens, if_neg hnil]
  · show (if w.openTurnFirstEventID[ownerFor e]? = none then
      w.openTurnFirstEventID.insert (ownerFor e) e.id else w.openTurnFirstEventID)[a]? = _
    rw [hopen, h.first]
    by_cases ho : ownerFor e = a
    · subst ho
      cases hl : openTurn events (ownerFor e) with
      | nil => simp
      | cons y ys => simp [h.first, hl]
    · rw [if_neg ho]
      split_ifs
      · rw [TreeMap.get_insert, if_neg ho, h.first]
      · exact h.first a
  · show (if w.openTurnTurnIDByAgent[ownerFor e]? = none ∧ e.turn ≠ [] then
      w.openTurnTurnIDByAgent.insert (ownerFor e) e.turn else w.openTurnTurnIDByAgent)[a]? = _
    rw [openTurnID_snoc_of_records hr, h.turn]
    by_cases ho : ownerFor e = a
    · subst ho
      cases hid : openTurnID events (ownerFor e) with
      | none =>
        by_cases ht : e.turn = []
        · simp [ht, h.turn, hid]
        · simp [ht]
      | some t => simp [h.turn, hid]
    · rw [if_neg ho]
      split_ifs
      · rw [TreeMap.get_insert, if_neg ho, h.turn]
      · exact h.turn a
  · rw [hopeners]
    exact h.index key
  · rw [hopeners]
    refine h.rows.trans (List.map_congr_left fun x hx => (rowOf_snoc (.inl hc) ?_).symm)
    exact (List.mem_filter.mp hx).2
  · show (w.result.flatMap FeedItem.events).count x + _ = _
    rw [hopen, List.count_append, ← h.counts x]
    by_cases ho : ownerFor e = ownerFor x
    · rw [if_pos ho, List.count_append]
      omega
    · have hne : e ≠ x := fun heq => ho (heq ▸ rfl)
      simp [ho, hne]

/-- The complete output that opens the row of its turn. -/
theorem Walked.openBubble (h : Walked events w) (hnew : e ∉ events) (hc : e.closes = true)
    (hfirst : e.key = none ∨ ∀ x ∈ openers events, x.closes = true → x.key ≠ e.key) :
    Walked (events ++ [e]) ((w.forgetOpenTurn (ownerFor e)).openBubble e (ownerFor e)
      (openTurn events (ownerFor e))) := by
  have hopen (a) : openTurn (events ++ [e]) a = if ownerFor e = a then [] else openTurn events a := by
    rw [openTurn_snoc]
    simp [hc]
  have hopens : opensRow (events ++ [e]) e = true := by
    rw [opensRow_snoc_self hnew, if_pos hc]
    rcases hfirst with hnone | hno
    · simp [hnone]
    · rw [Bool.or_eq_true, beq_iff_eq, beq_iff_eq, List.find?_eq_none]
      by_cases hkey : e.key = none
      · exact .inl hkey
      · refine .inr fun x hx hmatch => ?_
        rw [Bool.and_eq_true, beq_iff_eq] at hmatch
        obtain ⟨y, hy, hyc, hyk, -⟩ := exists_opener hx hmatch.1
        exact hno y hy hyc (hyk.trans hmatch.2)
  have hopeners : openers (events ++ [e]) = openers events ++ [e] := by
    rw [openers_snoc, if_pos hopens]
  have hkept (x) (hx : x ∈ openers events) : rowOf (events ++ [e]) x = rowOf events x := by
    refine rowOf_snoc ?_ (List.mem_filter.mp hx).2
    by_cases hxc : x.closes = true
    · exact .inr (hfirst.elim .inl fun hno => .inr (.inl (hno x hx hxc)))
    · exact .inr (.inr (.inr (by simpa using hxc)))
  refine ⟨fun a => ?_, fun a => ?_, fun a => ?_, fun key => ?_, ?_, fun x => ?_⟩
  · show (w.openTurnsByAgent.erase (ownerFor e))[a]? = _
    rw [hopen, TreeMap.get_erase, h.opens]
    split_ifs <;> first | rfl | contradiction
  · show (w.openTurnFirstEventID.erase (ownerFor e))[a]? = _
    rw [hopen, TreeMap.get_erase, h.first]
    split_ifs <;> rfl
  · show (w.openTurnTurnIDByAgent.erase (ownerFor e))[a]? = _
    unfold openTurnID
    rw [hopen, TreeMap.get_erase, h.turn]
    split_ifs <;> rfl
  · rw [hopeners, List.findIdx?_append, ← h.index, FeedWalk.openBubble, FeedWalk.forgetOpenTurn]
    have hkeyOf : turnKey (ownerFor e) e.turnID = e.key := rfl
    rw [hkeyOf]
    cases hkey : e.key with
    | none => simp [List.findIdx?_cons, hkey]
    | some k =>
      rw [TreeMap.get_insert, h.length]
      by_cases hk : k = key
      · subst hk
        have hnone : w.completedTurnIndexByKey[k]? = none := by
          rw [h.index, List.findIdx?_eq_none_iff]
          intro x hx
          rcases hfirst with hnone | hno
          · simp [hnone] at hkey
          · by_cases hxc : x.closes = true
            · have hne : x.key ≠ some k := hkey ▸ hno x hx hxc
              simp [hne]
            · simp [hxc]
        simp [hnone, List.findIdx?_cons, hc, hkey]
      · simp [List.findIdx?_cons, hkey, hk]
  · rw [hopeners, FeedWalk.openBubble, FeedWalk.forgetOpenTurn, List.map_append, List.map_append,
      h.rows, List.map_congr_left hkept]
    have hend : bubbleEnd (events ++ [e]) e = e := by
      by_cases hnone : e.key = none
      · unfold bubbleEnd
        rw [if_pos hnone]
      · exact bubbleEnd_snoc hc rfl hnone
    simp [rowOf_closes hc, hend, FeedItem.face]
  · have hcount := h.counts x
    rw [hopen, FeedWalk.openBubble, FeedWalk.forgetOpenTurn, List.flatMap_append, List.count_append,
      List.count_append]
    by_cases ho : ownerFor e = ownerFor x
    · rw [if_pos ho, ho, List.count_nil]
      simp only [List.flatMap_cons, List.flatMap_nil, List.append_nil, FeedItem.events,
        List.count_append]
      omega
    · have hnot : (openTurn events (ownerFor e)).count x = 0 := by
        refine List.count_eq_zero.mpr fun hmem => ho ?_
        exact (mem_openTurn hmem).2.1.symm
      simp only [if_neg ho, List.flatMap_cons, List.flatMap_nil, List.append_nil, FeedItem.events,
        List.count_append]
      omega

/-- A later complete output of a turn takes the place of the last one in its row. -/
theorem Walked.mergeBubble (h : Walked events w) (hnew : e ∉ events) (hc : e.closes = true)
    {y : AgentEvent} {idx : Nat} (hnodup : events.Nodup)
    (hy : (openers events)[idx]? = some y) (hyc : y.closes = true)
    (hkey : y.key = e.key) (hsome : e.key ≠ none) {id agentID : Str} {final : AgentEvent}
    {runtime : List AgentEvent} (hrow : w.result[idx]? = some (.completedTurn id agentID final runtime)) :
    Walked (events ++ [e]) { w.forgetOpenTurn (ownerFor e) with
      result := w.result.set idx (.completedTurn id agentID e
        (runtime ++ [final] ++ openTurn events (ownerFor e))) } := by
  have hopen (a) : openTurn (events ++ [e]) a = if ownerFor e = a then [] else openTurn events a := by
    rw [openTurn_snoc]
    simp [hc]
  have hymem : y ∈ openers events := List.mem_of_getElem? hy
  have hopeners : openers (events ++ [e]) = openers events := by
    rw [openers_snoc, opensRow_snoc_self hnew, if_pos hc]
    obtain ⟨z, -, -, -, hz⟩ := exists_opener (List.mem_filter.mp hymem).1 hyc
    rw [← hkey] at hsome
    rw [← hkey, hz]
    simp [hsome]
  have hidx : idx < w.result.length := (List.getElem?_eq_some_iff.mp hrow).1
  have hface := congrArg (·[idx]?) h.rows
  simp only [List.getElem?_map, hrow, hy, Option.map_some, rowOf_closes hyc, FeedItem.face,
    Option.some.injEq, FeedItem.completedTurn.injEq] at hface
  obtain ⟨hid, hagent, -, -⟩ := hface
  refine ⟨fun a => ?_, fun a => ?_, fun a => ?_, fun key => ?_, ?_, fun x => ?_⟩
  · show (w.openTurnsByAgent.erase (ownerFor e))[a]? = _
    rw [hopen, TreeMap.get_erase, h.opens]
    split_ifs <;> first | rfl | contradiction
  · show (w.openTurnFirstEventID.erase (ownerFor e))[a]? = _
    rw [hopen, TreeMap.get_erase, h.first]
    split_ifs <;> rfl
  · show (w.openTurnTurnIDByAgent.erase (ownerFor e))[a]? = _
    unfold openTurnID
    rw [hopen, TreeMap.get_erase, h.turn]
    split_ifs <;> rfl
  · rw [hopeners]
    exact h.index key
  · rw [hopeners, List.map_set, h.rows]
    refine List.ext_getElem? fun i => ?_
    rw [List.getElem?_set, List.getElem?_map, List.length_map]
    by_cases hi : idx = i
    · -- The row of the turn itself.
      subst hi
      have hlt : idx < (openers events).length := (List.getElem?_eq_some_iff.mp hy).1
      simp only [hlt, ↓reduceIte, List.getElem?_map, hy, Option.map_some, rowOf_closes hyc,
        bubbleEnd_snoc hc hkey hsome, FeedItem.face, hid, hagent]
    · -- No other row is of the turn.
      rw [if_neg hi, List.getElem?_map]
      cases hx : (openers events)[i]? with
      | none => rfl
      | some x =>
        have hxmem : x ∈ openers events := List.mem_of_getElem? hx
        refine congrArg some (rowOf_snoc ?_ (List.mem_filter.mp hxmem).2).symm
        by_cases hxc : x.closes = true
        · refine .inr (.inr (.inl fun hxk => hi ?_))
          have hxy : y = x := opener_unique hymem hxmem hyc hxc (hkey.trans hxk.symm) (hkey ▸ hsome)
          have hlt : idx < (openers events).length := (List.getElem?_eq_some_iff.mp hy).1
          refine (List.getElem?_inj hlt (hnodup.filter _)).mp ?_
          rw [hy, hx, hxy]
        · exact .inr (.inr (.inr (by simpa using hxc)))
  · have hcount := h.counts x
    have hset : ((w.result.set idx (.completedTurn id agentID e
        (runtime ++ [final] ++ openTurn events (ownerFor e)))).flatMap FeedItem.events).Perm
        (w.result.flatMap FeedItem.events ++ (openTurn events (ownerFor e) ++ [e])) := by
      refine FirstMatch.flatMap_set hidx ?_
      rw [(List.getElem?_eq_some_iff.mp hrow).2]
      simp [FeedItem.events]
    show ((w.result.set idx _).flatMap FeedItem.events).count x + _ = _
    rw [hset.count_eq, hopen, List.count_append, List.count_append, List.count_append]
    by_cases ho : ownerFor e = ownerFor x
    · rw [if_pos ho, ho, List.count_nil]
      omega
    · have hnot : (openTurn events (ownerFor e)).count x = 0 := by
        refine List.count_eq_zero.mpr fun hmem => ho ?_
        exact (mem_openTurn hmem).2.1.symm
      rw [if_neg ho]
      omega

/-- A complete output. -/
theorem Walked.closeTurn (h : Walked events w) (hnew : e ∉ events) (hnodup : events.Nodup)
    (hc : e.closes = true) : Walked (events ++ [e]) (w.closeTurn e (ownerFor e)) := by
  have hkeyOf : turnKey (ownerFor e) e.turnID = e.key := rfl
  have hindex : (w.forgetOpenTurn (ownerFor e)).completedTurnIndexByKey = w.completedTurnIndexByKey := rfl
  have hresult : (w.forgetOpenTurn (ownerFor e)).result = w.result := rfl
  unfold FeedWalk.closeTurn
  rw [h.getD_opens, hkeyOf]
  dsimp only
  rw [hindex, hresult]
  cases hfound : e.key.bind (w.completedTurnIndexByKey[·]?) with
  | none =>
    refine h.openBubble hnew hc ?_
    cases hkey : e.key with
    | none => exact .inl rfl
    | some k =>
      rw [hkey, Option.bind_some, h.index, List.findIdx?_eq_none_iff] at hfound
      refine .inr fun x hx hxc hxk => ?_
      simpa [hxc, hxk] using hfound x hx
  | some idx =>
    obtain ⟨k, hkey, hidx⟩ := Option.bind_eq_some_iff.mp hfound
    rw [h.index, List.findIdx?_eq_some_iff_getElem] at hidx
    obtain ⟨hlt, hmatch, -⟩ := hidx
    rw [Bool.and_eq_true, beq_iff_eq] at hmatch
    have hy : (openers events)[idx]? = some (openers events)[idx] := List.getElem?_eq_getElem hlt
    have hface := congrArg (·[idx]?) h.rows
    simp only [List.getElem?_map, hy, Option.map_some, rowOf_closes hmatch.1] at hface
    obtain ⟨row, hrow, hrowface⟩ := Option.map_eq_some_iff.mp hface
    -- The row of the index is a bubble.
    cases row with
    | completedTurn id agentID final runtime =>
      simp only [hrow]
      exact h.mergeBubble hnew hc hnodup hy hmatch.1 (hmatch.2.trans hkey.symm) (by simp [hkey]) hrow
    | _ => simp [FeedItem.face] at hrowface

/-- One event of the walk. -/
theorem Walked.step (h : Walked events w) (hnew : e ∉ events) (hnodup : events.Nodup) :
    Walked (events ++ [e]) (w.step e) := by
  unfold FeedWalk.step
  cases hk : e.kind with
  | output =>
    by_cases hcomplete : e.isComplete = true
    · simp only [hcomplete, ↓reduceIte]
      exact h.closeTurn hnew hnodup (by simp [AgentEvent.closes, hk, hcomplete])
    · simp only [hcomplete]
      exact h.recordOpenTurn hnew (by simp [AgentEvent.records, hk, hcomplete])
  | runtime => exact h.recordOpenTurn hnew (by simp [AgentEvent.records, hk])
  | _ =>
    exact h.push hnew (by simp [AgentEvent.closes, hk]) (by simp [AgentEvent.records, hk])
      (by simp [rowOf, hk, FeedItem.face]) rfl

end Steps

/-- The variables of the walk are functions of the events. -/
theorem walked {events : List AgentEvent} (hnodup : events.Nodup) : Walked events (walk events) := by
  induction events using List.reverseRecOn with
  | nil => exact walked_nil
  | append_singleton events e ih =>
    obtain ⟨hevents, -, hnew⟩ := List.nodup_append.mp hnodup
    rw [walk, List.foldl_append]
    exact (ih hevents).step (fun hmem => hnew e hmem e (by simp) rfl) hevents

end TeamClu.Feed
