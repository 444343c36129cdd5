import TeamClu.Spec.FeedRequests

/-!
# The chat feed keeps every event

Each event is once in the rows and the runtime events, a waiting request whose turn has a card twice; the rows
have different ids and a turn has at most one card.  This holds exactly if each request finds a card of its own
turn, no two agents take up the same bubble, and no turn id of a bubble is the id of another row.

Key results:

* `feed_conserves_iff`: when the feed keeps every event
-/

namespace TeamClu.Feed

/-! ## What is asked of the feed -/

/-- A permission request without an answer. -/
def AgentEvent.waits (e : AgentEvent) : Bool := e.kind == .permissionRequest && !e.isComplete

/-- A permission request with an answer. -/
def AgentEvent.answered (e : AgentEvent) : Bool := e.kind == .permissionRequest && e.isComplete

/-- The runtime events of a card. -/
def FeedItem.runtime : FeedItem → List AgentEvent
  | activeStream _ _ runtime => runtime
  | completedTurn _ _ _ runtime => runtime
  | _ => []

/-- The agent of a card. -/
def FeedItem.agent? : FeedItem → Option Str
  | activeStream _ agentID _ => some agentID
  | completedTurn _ agentID _ _ => some agentID
  | _ => none

/-- The agent and the turn id of a card that has one; a running card has that of the open turn. -/
def FeedItem.turnOf (events : List AgentEvent) : FeedItem → Option (Str × Str)
  | completedTurn _ agentID final _ => if final.turn = [] then none else some (agentID, final.turn)
  | activeStream _ agentID _ => (openTurnID events agentID).map (agentID, ·)
  | _ => none

/-- A row is a card of the turn of a request.  Without a turn id every turn of the agent will do. -/
def FeedItem.OfTurn (events : List AgentEvent) (e : AgentEvent) (item : FeedItem) : Prop :=
  if e.turn = [] then item.agent? = some (ownerFor e)
  else item.turnOf events = some (ownerFor e, e.turn)

/-- The turn of a request has a card. -/
def HasCard (events : List AgentEvent) (feed : List FeedItem) (e : AgentEvent) : Prop :=
  ∃ item ∈ feed, item.OfTurn events e

/-- How often an event occurs in a feed. -/
def occurs (feed : List FeedItem) (e : AgentEvent) : Nat := (feed.flatMap FeedItem.events).count e

/-- The feed keeps every event, under different ids and with one card for a turn. -/
structure Conserves (events : List AgentEvent) (feed : List FeedItem) : Prop where
  once : ∀ e ∈ events, ¬ (e.waits = true ∧ HasCard events feed e) → occurs feed e = 1
  waiting : ∀ e ∈ events, e.waits = true → HasCard events feed e → occurs feed e = 2 ∧
    .permission e ∈ feed ∧ ∃ card ∈ feed, card.OfTurn events e ∧ e ∈ card.runtime
  answered : ∀ e ∈ events, e.answered = true → HasCard events feed e → .permission e ∉ feed ∧
    ∃ card ∈ feed, card.OfTurn events e ∧ e ∈ card.runtime
  ids : (feed.map FeedItem.id).Nodup
  turns : (feed.filterMap (·.turnOf events)).Nodup

/-! ## When the code does it -/

/-- The bubbles that are shown, by the events that opened them. -/
def bubbles (events : List AgentEvent) : List AgentEvent := (shownRows events).filter (·.closes)

/-- A bubble fits a request: by its agent if the request has no turn id, else by the turn id of its last output or
    by its own id. -/
def fits (events : List AgentEvent) (e x : AgentEvent) : Bool :=
  if e.turn = [] then ownerFor x == ownerFor e
  else (bubbleEnd events x).turn == e.turn || FeedWalk.rowTurnID x == e.turn

/-- The first bubble that fits a request is of its turn, and where none fits so is the card of its agent. -/
structure FindsOwn (events : List AgentEvent) (streaming : Finset Str) (e : AgentEvent) : Prop where
  bubble : ∀ x, (bubbles events).find? (fits events e) = some x →
    ownerFor x = ownerFor e ∧ (bubbleEnd events x).turn = e.turn
  running : (∀ x ∈ bubbles events, fits events e x = false) →
    Live events streaming (ownerFor e) → openTurnID events (ownerFor e) = some e.turn

/-- A bubble is of the turn of a request, or the open turn of its agent is. -/
def TurnShown (events : List AgentEvent) (e : AgentEvent) : Prop :=
  (∃ x ∈ bubbles events, ownerFor x = ownerFor e ∧ (bubbleEnd events x).turn = e.turn) ∨
    openTurnID events (ownerFor e) = some e.turn

/-- An event has a row of its own: all but an answered request for which some card fits. -/
def KeepsRow (events : List AgentEvent) (streaming : Finset Str) (y : AgentEvent) : Prop :=
  y.answered = true → ¬ Live events streaming (ownerFor y) ∧ ∀ x ∈ bubbles events, fits events y x = false

/-- The requests find their own cards, and the turn ids are no ids of other rows. -/
structure CardsApart (events : List AgentEvent) (streaming : Finset Str) : Prop where
  resumedOnce : ResumedOnce events
  waiting : ∀ e ∈ events, e.waits = true → e.turn ≠ [] → FindsOwn events streaming e
  answered : ∀ e ∈ events, e.answered = true → e.turn ≠ [] → TurnShown events e →
    FindsOwn events streaming e
  rowIDs : ∀ x ∈ bubbles events, x.turn ≠ [] → ∀ y ∈ shownRows events, y ≠ x →
    KeepsRow events streaming y → (rowOf events y).id ≠ x.turn
  streamIDs : ∀ x ∈ bubbles events, x.turn ≠ [] → ∀ a, Live events streaming a →
    "stream-".toList ++ a ≠ x.turn

/-! ## Which card a request finds -/

section Finds

variable {events : List AgentEvent} {sets : SetOrder} {streaming : Finset Str} {e x : AgentEvent}
  {item : FeedItem}

theorem agent?_face : item.face.agent? = item.agent? := by cases item <;> rfl

theorem turnOf_face : item.face.turnOf events = item.turnOf events := by cases item <;> rfl

theorem id_face : item.face.id = item.id := by cases item <;> rfl

theorem request?_face : item.face.request? = item.request? := by cases item <;> rfl

theorem isPermission_face : item.face.isPermission = item.isPermission := by cases item <;> rfl

theorem ofTurn_of_face {item' : FeedItem} (h : item.face = item'.face) :
    item.OfTurn events e ↔ item'.OfTurn events e := by
  unfold FeedItem.OfTurn
  rw [← agent?_face, h, agent?_face, ← turnOf_face, h, turnOf_face]

/-- A card of the turn of a request fits it. -/
theorem anchors_of_ofTurn (h : item.OfTurn events e) : anchors e item = true := by
  unfold FeedItem.OfTurn at h
  cases item with
  | completedTurn id agentID final runtime =>
    by_cases ht : e.turn = []
    · simpa [anchors, ht, FeedItem.agent?] using h
    · rw [if_neg ht, FeedItem.turnOf] at h
      split_ifs at h with hf
      obtain ⟨-, hturn⟩ := Prod.mk.inj (Option.some.inj h)
      have hid : final.turnID = some e.turn := by
        unfold AgentEvent.turn at hturn hf ⊢
        cases hid : final.turnID with
        | none => simp [hid] at hf
        | some t => simpa [hid] using hturn
      simp [anchors, ht, hid]
  | activeStream id agentID runtime =>
    by_cases ht : e.turn = []
    · simpa [anchors, ht, FeedItem.agent?] using h
    · rw [if_neg ht, FeedItem.turnOf] at h
      obtain ⟨t, -, hpair⟩ := Option.map_eq_some_iff.mp h
      simpa [anchors] using (Prod.mk.inj hpair).1
  | _ => split_ifs at h <;> cases h

/-- An output that opens a row is complete. -/
theorem kind_ne_output (hx : x ∈ openers events) (hc : x.closes = false) : x.kind ≠ .output := by
  intro hk
  have hr : x.records = true := by
    unfold AgentEvent.closes at hc
    unfold AgentEvent.records
    simpa [hk] using hc
  have hrow := (List.mem_filter.mp hx).2
  unfold opensRow at hrow
  simp [hc, hr] at hrow

/-- What the search for a card sees of the row of an event. -/
theorem anchors_rowOf (hx : x ∈ openers events) :
    anchors e (rowOf events x) = (x.closes && fits events e x) := by
  cases hc : x.closes with
  | true =>
    rw [rowOf_closes hc, Bool.true_and]
    unfold anchors fits
    by_cases ht : e.turn = []
    · simp [ht]
    · have hid : ((bubbleEnd events x).turnID == some e.turn) = ((bubbleEnd events x).turn == e.turn) := by
        unfold AgentEvent.turn at *
        cases hid : (bubbleEnd events x).turnID with
        | none =>
          simpa using ht
        | some t => simp
      simp only [if_neg ht, hid]
  | false =>
    rw [Bool.false_and]
    have hk := kind_ne_output hx hc
    unfold rowOf
    cases hkind : x.kind <;> first | exact absurd hkind hk | rfl

theorem isPermission_rowOf : (rowOf events x).isPermission = (x.kind == .permissionRequest) := by
  unfold rowOf
  cases x.kind <;> rfl

theorem request?_rowOf :
    (rowOf events x).request? = if x.kind == .permissionRequest then some x else none := by
  unfold rowOf
  cases x.kind <;> rfl

/-- The rows of the running cards. -/
def running (agents : List Str) : List FeedItem :=
  agents.map fun a => .activeStream ("stream-".toList ++ a) a []

/-- The rows that are no requests. -/
theorem faces_base (hnodup : events.Nodup) :
    (base ((walk events).withTrailing sets streaming)).map FeedItem.face =
      ((shownRows events).filter (·.kind != .permissionRequest)).map (rowOf events) ++
        running ((walk events).ordered sets streaming) := by
  have hfaces := (walked hnodup).faces_withTrailing sets streaming hnodup
  have hbase (l : List FeedItem) : (base l).map FeedItem.face = base (l.map FeedItem.face) := by
    unfold base
    rw [List.filter_map]
    exact congrArg (List.map _ <| List.filter · l) (funext fun _ => by rw [Function.comp, isPermission_face])
  rw [hbase, hfaces]
  unfold base
  rw [List.filter_append, List.filter_map, running, List.filter_map]
  congr 1
  · refine congrArg _ (List.filter_congr fun x _ => ?_)
    rw [Function.comp, isPermission_rowOf, bne]
  · exact congrArg _ (List.filter_eq_self.mpr fun _ _ => rfl)

/-- A request opens a row, and its turn is not taken up again. -/
theorem shownRows_filter : (shownRows events).filter (·.kind == .permissionRequest) =
    events.filter (·.kind == .permissionRequest) := by
  rw [shownRows, openers, List.filter_filter, List.filter_filter]
  refine List.filter_congr fun x _ => ?_
  cases hk : x.kind <;> simp [resumed, opensRow, AgentEvent.closes, AgentEvent.records, hk] <;> rfl

/-- The requests have their rows in the order of the events. -/
theorem requests_withTrailing (hnodup : events.Nodup) :
    requests ((walk events).withTrailing sets streaming) =
      events.filter (·.kind == .permissionRequest) := by
  have hfaces := (walked hnodup).faces_withTrailing sets streaming hnodup
  have hrequests (l : List FeedItem) : requests l = requests (l.map FeedItem.face) := by
    unfold requests
    rw [List.filterMap_map]
    exact congrArg (List.filterMap · l) (funext fun _ => request?_face.symm)
  rw [hrequests, hfaces]
  unfold requests
  rw [List.filterMap_append, List.filterMap_map, List.filterMap_map]
  have hrows : FeedItem.request? ∘ rowOf events =
      Option.guard (fun x => x.kind == .permissionRequest) := by
    funext x
    rw [Function.comp, request?_rowOf, Option.guard]
  have hnone : (List.filterMap (FeedItem.request? ∘ fun a =>
      FeedItem.activeStream ("stream-".toList ++ a) a []) ((walk events).ordered sets streaming)) = [] :=
    List.filterMap_eq_nil_iff.mpr fun _ _ => rfl
  rw [hnone, List.append_nil, hrows, List.filterMap_eq_filter, shownRows_filter]

theorem closes_kind (hc : x.closes = true) : x.kind = .output := by
  unfold AgentEvent.closes at hc
  simpa using (Bool.and_eq_true_iff.mp hc).1

/-- Among the rows only bubbles are found. -/
theorem find?_rows (e : AgentEvent) :
    ((shownRows events).filter (·.kind != .permissionRequest)).find? (anchors e ∘ rowOf events) =
      (bubbles events).find? (fits events e) := by
  rw [← List.head?_filter, ← List.head?_filter, List.filter_filter, bubbles, List.filter_filter]
  refine congrArg List.head? (List.filter_congr fun x hx => ?_)
  rw [Function.comp, anchors_rowOf (List.mem_filter.mp hx).1]
  cases hc : x.closes with
  | false => simp
  | true => simp [closes_kind hc]

/-- The card that a request finds first. -/
theorem find?_base (sets : SetOrder) (streaming : Finset Str) (hnodup : events.Nodup) (e : AgentEvent) :
    ((base ((walk events).withTrailing sets streaming)).find? (anchors e)).map FeedItem.face =
      (((bubbles events).find? (fits events e)).map (rowOf events)).or
        (if Live events streaming (ownerFor e) then
          some (.activeStream ("stream-".toList ++ ownerFor e) (ownerFor e) []) else none) := by
  have hface : anchors e ∘ FeedItem.face = anchors e := funext fun _ => anchors_face
  have hmap (l : List FeedItem) :
      (l.map FeedItem.face).find? (anchors e) = (l.find? (anchors e)).map FeedItem.face := by
    rw [List.find?_map, hface]
  rw [← hmap, faces_base hnodup, List.find?_append]
  congr 1
  · rw [List.find?_map, find?_rows]
  · rw [running, List.find?_map]
    have hagent : (anchors e ∘ fun a => FeedItem.activeStream ("stream-".toList ++ a) a []) =
        (· == ownerFor e) := rfl
    rw [hagent]
    have hmem := (walked hnodup).mem_ordered sets streaming (ownerFor e)
    split_ifs with hlive
    · have hsome : (((walk events).ordered sets streaming).find? (· == ownerFor e)).isSome := by
        rw [List.find?_isSome]
        exact ⟨_, hmem.mpr hlive, beq_self_eq_true _⟩
      obtain ⟨a, ha⟩ := Option.isSome_iff_exists.mp hsome
      have heq : a = ownerFor e := by simpa using List.find?_some ha
      rw [ha, heq, Option.map_some]
    · rw [List.find?_eq_none.mpr fun a ha => ?_, Option.map_none]
      intro heq
      exact hlive (hmem.mp (beq_iff_eq.mp heq ▸ ha))

/-- A request finds a card if a bubble fits it or its agent has a running card. -/
theorem carded_iff (sets : SetOrder) (streaming : Finset Str) (hnodup : events.Nodup)
    (e : AgentEvent) :
    carded ((walk events).withTrailing sets streaming) e = true ↔
      Live events streaming (ownerFor e) ∨ ∃ x ∈ bubbles events, fits events e x = true := by
  have hfind := congrArg Option.isSome (find?_base sets streaming hnodup e)
  rw [Option.isSome_map, Option.isSome_or, Option.isSome_map] at hfind
  have hcarded : carded ((walk events).withTrailing sets streaming) e =
      ((base ((walk events).withTrailing sets streaming)).find? (anchors e)).isSome := by
    rw [← carded_base, carded, Bool.eq_iff_iff, List.any_eq_true, List.find?_isSome]
  rw [hcarded, hfind, Bool.or_eq_true, List.find?_isSome, or_comm]
  by_cases hlive : Live events streaming (ownerFor e) <;> simp [hlive]

/-- The row of an event is a card of the turn of a request. -/
theorem ofTurn_rowOf (hx : x ∈ openers events) (ht : e.turn ≠ []) :
    (rowOf events x).OfTurn events e ↔
      x.closes = true ∧ ownerFor x = ownerFor e ∧ (bubbleEnd events x).turn = e.turn := by
  unfold FeedItem.OfTurn
  rw [if_neg ht]
  cases hc : x.closes with
  | true =>
    rw [rowOf_closes hc, FeedItem.turnOf]
    split_ifs with hend
    · simp [hend, Ne.symm ht]
    · simp
  | false =>
    have hno := anchors_rowOf (e := e) hx
    rw [hc, Bool.false_and] at hno
    simp only [Bool.false_eq_true, false_and, iff_false]
    intro hturn
    have hyes : anchors e (rowOf events x) = true := by
      refine @anchors_of_ofTurn events _ _ ?_
      rwa [FeedItem.OfTurn, if_neg ht]
    rw [hno] at hyes
    cases hyes

/-- A running card is of the turn of a request. -/
theorem ofTurn_running {id agentID : Str} {runtime : List AgentEvent} (ht : e.turn ≠ []) :
    (FeedItem.activeStream id agentID runtime).OfTurn events e ↔
      agentID = ownerFor e ∧ openTurnID events agentID = some e.turn := by
  unfold FeedItem.OfTurn
  rw [if_neg ht, FeedItem.turnOf, Option.map_eq_some_iff]
  constructor
  · rintro ⟨t, hopen, hpair⟩
    obtain ⟨hagent, rfl⟩ := Prod.mk.inj hpair
    exact ⟨hagent, hopen⟩
  · rintro ⟨hagent, hopen⟩
    exact ⟨e.turn, hopen, by rw [hagent]⟩

theorem mem_openers_of_bubbles (hx : x ∈ bubbles events) : x ∈ openers events :=
  List.mem_of_mem_filter (List.mem_of_mem_filter hx)

/-- When the card that a request finds first is of its turn. -/
theorem findsOwn_iff (hnodup : events.Nodup) (ht : e.turn ≠ []) :
    (∀ item, (base ((walk events).withTrailing sets streaming)).find? (anchors e) = some item →
      item.OfTurn events e) ↔ FindsOwn events streaming e := by
  have hfind := find?_base sets streaming hnodup e
  have hall : (∀ item, (base ((walk events).withTrailing sets streaming)).find? (anchors e) =
      some item → item.OfTurn events e) ↔ ∀ face, (((base ((walk events).withTrailing sets
      streaming)).find? (anchors e)).map FeedItem.face) = some face → face.OfTurn events e := by
    constructor
    · intro h face hface
      obtain ⟨item, hitem, rfl⟩ := Option.map_eq_some_iff.mp hface
      exact (ofTurn_of_face (by cases item <;> rfl)).mpr (h item hitem)
    · intro h item hitem
      exact (ofTurn_of_face (by cases item <;> rfl)).mp (h item.face (by rw [hitem, Option.map_some]))
  rw [hall, hfind]
  cases hbubble : (bubbles events).find? (fits events e) with
  | some x =>
    have hxmem := List.mem_of_find?_eq_some hbubble
    have hxc : x.closes = true := (List.mem_filter.mp hxmem).2
    have hx := mem_openers_of_bubbles hxmem
    rw [Option.map_some, Option.some_or]
    constructor
    · intro h
      refine ⟨fun y hy => ?_, fun hnone => ?_⟩
      · obtain rfl : x = y := Option.some.inj (hbubble.symm.trans hy)
        exact ((ofTurn_rowOf hx ht).mp (h _ rfl)).2
      · have hyes := List.find?_some hbubble
        rw [hnone x hxmem] at hyes
        cases hyes
    · rintro h face hface
      obtain rfl := Option.some.inj hface
      exact (ofTurn_rowOf hx ht).mpr ⟨hxc, h.bubble x hbubble⟩
  | none =>
    have hnone : ∀ x ∈ bubbles events, fits events e x = false := by
      simpa using List.find?_eq_none.mp hbubble
    rw [Option.map_none, Option.none_or]
    constructor
    · intro h
      refine ⟨fun y hy => ?_, fun _ hlive => ?_⟩
      · rw [hbubble] at hy
        cases hy
      · rw [if_pos hlive] at h
        exact ((ofTurn_running ht).mp (h _ rfl)).2
    · intro h face hface
      split_ifs at hface with hlive
      obtain rfl := Option.some.inj hface
      exact (ofTurn_running ht).mpr ⟨rfl, h.running hnone hlive⟩

end Finds

/-! ## The cards of the feed -/

section Placed

variable {events : List AgentEvent} {sets : SetOrder} {streaming : Finset Str} {e : AgentEvent}

/-- The feed in the words of the rows before the requests are placed. -/
theorem feed_spec (sets : SetOrder) (streaming : Finset Str) (hnodup : events.Nodup) :
    ∃ order : List AgentEvent, (∀ e, e ∈ order ↔ e ∈ events ∧ e.kind = .permissionRequest) ∧
      base (buildFeedItems sets events streaming) =
        order.foldl takeUp (base ((walk events).withTrailing sets streaming)) ∧
      (requests (buildFeedItems sets events streaming)).Perm ((events.filter
        (·.kind == .permissionRequest)).filter fun e =>
          !answeredUnder ((walk events).withTrailing sets streaming) e) ∧
      ((buildFeedItems sets events streaming).flatMap FeedItem.events).Perm
        (((walk events).withTrailing sets streaming).flatMap FeedItem.events ++
          (events.filter (·.kind == .permissionRequest)).filter
            (waitsUnder ((walk events).withTrailing sets streaming))) := by
  obtain ⟨order, hmem, hbase, hrequests, hevents⟩ :=
    placed_spec ((walk events).withTrailing sets streaming)
  rw [requests_withTrailing hnodup] at hrequests hevents
  refine ⟨order, fun e => ?_, hbase, hrequests, hevents⟩
  rw [hmem, requests_withTrailing hnodup, List.mem_filter, beq_iff_eq]

/-- The rows that are no requests are those from before, but for their runtime events. -/
theorem faces_base_feed (hnodup : events.Nodup) :
    (base (buildFeedItems sets events streaming)).map FeedItem.face =
      (base ((walk events).withTrailing sets streaming)).map FeedItem.face := by
  obtain ⟨order, -, hbase, -, -⟩ := feed_spec sets streaming hnodup
  rw [hbase, faces_foldl_takeUp]

theorem mem_base_of_ofTurn {feed : List FeedItem} {item : FeedItem} (hitem : item ∈ feed)
    (h : item.OfTurn events e) : item ∈ base feed :=
  List.mem_filter.mpr ⟨hitem, by rw [isPermission_of_anchors (anchors_of_ofTurn h)]; rfl⟩

/-- Whether a turn has a card is seen without the runtime events. -/
theorem hasCard_iff_face {feed : List FeedItem} :
    HasCard events feed e ↔ ∃ face ∈ (base feed).map FeedItem.face, face.OfTurn events e := by
  constructor
  · rintro ⟨item, hitem, h⟩
    exact ⟨item.face, List.mem_map_of_mem (mem_base_of_ofTurn hitem h),
      (ofTurn_of_face (by cases item <;> rfl)).mpr h⟩
  · rintro ⟨face, hface, h⟩
    obtain ⟨item, hitem, rfl⟩ := List.mem_map.mp hface
    exact ⟨item, mem_of_base hitem, (ofTurn_of_face (by cases item <;> rfl)).mp h⟩

/-- When the turn of a request has a card. -/
theorem hasCard_iff (hnodup : events.Nodup) (ht : e.turn ≠ []) :
    HasCard events (buildFeedItems sets events streaming) e ↔ TurnShown events e := by
  rw [hasCard_iff_face, faces_base_feed hnodup, faces_base hnodup]
  simp only [List.mem_append, running, List.mem_map, List.mem_filter]
  constructor
  · rintro ⟨face, ⟨x, ⟨hx, -⟩, rfl⟩ | ⟨a, -, rfl⟩, h⟩
    · obtain ⟨hc, hown⟩ := (ofTurn_rowOf (List.mem_of_mem_filter hx) ht).mp h
      exact .inl ⟨x, List.mem_filter.mpr ⟨hx, hc⟩, hown⟩
    · obtain ⟨rfl, hopen⟩ := (ofTurn_running ht).mp h
      exact .inr hopen
  · rintro (⟨x, hx, hown⟩ | hopen)
    · obtain ⟨hshown, hc⟩ := List.mem_filter.mp hx
      exact ⟨_, .inl ⟨x, ⟨hshown, by simp [closes_kind hc]⟩, rfl⟩,
        (ofTurn_rowOf (mem_openers_of_bubbles hx) ht).mpr ⟨hc, hown⟩⟩
    · refine ⟨_, .inr ⟨ownerFor e, ((walked hnodup).mem_ordered sets streaming _).mpr (.inl ?_), rfl⟩,
        (ofTurn_running ht).mpr ⟨rfl, hopen⟩⟩
      rintro hnil
      rw [openTurnID, hnil] at hopen
      cases hopen

/-- A card that fits a request without a turn id is of its agent. -/
theorem ofTurn_of_blank (ht : e.turn = []) {item : FeedItem} (h : anchors e item = true) :
    item.OfTurn events e := by
  unfold FeedItem.OfTurn
  rw [if_pos ht]
  cases item with
  | completedTurn id agentID final runtime => simpa [anchors, ht, FeedItem.agent?] using h
  | activeStream id agentID runtime => simpa [anchors, FeedItem.agent?] using h
  | _ => cases h

/-- A request whose turn has a card finds one. -/
theorem carded_of_hasCard (hnodup : events.Nodup)
    (h : HasCard events (buildFeedItems sets events streaming) e) :
    carded ((walk events).withTrailing sets streaming) e = true := by
  rw [hasCard_iff_face, faces_base_feed hnodup] at h
  obtain ⟨face, hface, hturn⟩ := h
  obtain ⟨item, hitem, rfl⟩ := List.mem_map.mp hface
  rw [← carded_base]
  exact List.any_eq_true.mpr ⟨item, hitem, anchors_face ▸ anchors_of_ofTurn hturn⟩

/-- The first card that a request finds is of its turn. -/
def FirstOwn (sets : SetOrder) (events : List AgentEvent) (streaming : Finset Str) (e : AgentEvent) :
    Prop :=
  ∀ item, (base ((walk events).withTrailing sets streaming)).find? (anchors e) = some item →
    item.OfTurn events e

theorem firstOwn_of_blank (ht : e.turn = []) : FirstOwn sets events streaming e :=
  fun _ hitem => ofTurn_of_blank ht (List.find?_some hitem)

/-- No other row holds a request before the requests are placed. -/
theorem not_mem_events_base (hnodup : events.Nodup) (hk : e.kind = .permissionRequest)
    {item : FeedItem} (hitem : item ∈ base ((walk events).withTrailing sets streaming)) :
    e ∉ item.events := by
  intro he
  have hrow := (walked hnodup).request_row hnodup hk (mem_of_base hitem) he
  have hno := (List.mem_filter.mp hitem).2
  rw [hrow] at hno
  cases hno

/-- What a card holds and did not hold before is among its runtime events. -/
theorem mem_runtime {card item : FeedItem} (hface : card.face = item.face) (hin : e ∈ card.events)
    (hnot : e ∉ item.events) : e ∈ card.runtime := by
  cases card with
  | activeStream id agentID runtime => exact hin
  | completedTurn id agentID final runtime =>
    cases item with
    | completedTurn id' agentID' final' runtime' =>
      simp only [FeedItem.face, FeedItem.completedTurn.injEq] at hface
      obtain ⟨-, -, rfl, -⟩ := hface
      rcases List.mem_append.mp hin with hrun | hfinal
      · exact hrun
      · exact absurd (List.mem_append_right _ hfinal) hnot
    | _ => cases hface
  | _ => cases item <;> first | cases hface; exact absurd hin hnot | cases hface

/-- A request that finds its own card is in it. -/
theorem exists_own_card (hnodup : events.Nodup) (he : e ∈ events) (hk : e.kind = .permissionRequest)
    (hown : FirstOwn sets events streaming e)
    (hc : carded ((walk events).withTrailing sets streaming) e = true) :
    ∃ card ∈ buildFeedItems sets events streaming, card.OfTurn events e ∧ e ∈ card.runtime := by
  obtain ⟨order, hmem, hbase, -, -⟩ := feed_spec sets streaming hnodup
  have hsome : ((base ((walk events).withTrailing sets streaming)).findIdx? (anchors e)).isSome := by
    rw [List.findIdx?_isSome, ← carded, carded_base, hc]
  obtain ⟨i, hi⟩ := Option.isSome_iff_exists.mp hsome
  obtain ⟨hitem, hanchor⟩ := FirstMatch.getElem?_of_findIdx? hi
  obtain ⟨item, hfind⟩ := Option.isSome_iff_exists.mp hanchor
  obtain ⟨card, hcard, hface, hin⟩ := exists_card hbase ((hmem e).mpr ⟨he, hk⟩) hi (hitem.trans hfind)
  have hturn : card.OfTurn events e := (ofTurn_of_face hface).mpr (hown item hfind)
  refine ⟨card, mem_of_base hcard, hturn, ?_⟩
  have hitem' : item ∈ base ((walk events).withTrailing sets streaming) := List.mem_of_find?_eq_some hfind
  exact mem_runtime hface hin (not_mem_events_base hnodup hk hitem')

/-- A request is in no card but the one that it finds first. -/
theorem firstOwn_of_mem_card (hnodup : events.Nodup) (hk : e.kind = .permissionRequest)
    {card : FeedItem} (hcard : card ∈ buildFeedItems sets events streaming)
    (hturn : card.OfTurn events e) (hin : e ∈ card.runtime) : FirstOwn sets events streaming e := by
  obtain ⟨order, -, hbase, -, -⟩ := feed_spec sets streaming hnodup
  obtain ⟨i, item, -, hitem, hface, hevents⟩ := mem_base hbase (mem_base_of_ofTurn hcard hturn)
  have hin' : e ∈ card.events := by
    cases card with
    | completedTurn => exact List.mem_append_left _ hin
    | activeStream => exact hin
    | _ => cases hin
  rcases (hevents e).mp hin' with hold | htaken
  · exact absurd hold (not_mem_events_base hnodup hk (List.mem_of_getElem? hitem))
  · have hi := (List.mem_filter.mp htaken).2
    rw [beq_iff_eq] at hi
    intro first hfirst
    obtain rfl : item = first := by
      rw [(FirstMatch.getElem?_of_findIdx? hi).1, hfirst] at hitem
      exact (Option.some.inj hitem).symm
    exact (ofTurn_of_face hface).mp hturn

/-- How often an event occurs, when no bubble is taken up twice. -/
theorem occurs_feed (sets : SetOrder) (streaming : Finset Str) (hnodup : events.Nodup)
    (honce : ResumedOnce events) (he : e ∈ events) :
    occurs (buildFeedItems sets events streaming) e =
      1 + if e.waits = true ∧ carded ((walk events).withTrailing sets streaming) e = true then 1
        else 0 := by
  obtain ⟨-, -, -, -, hevents⟩ := feed_spec sets streaming hnodup
  unfold occurs
  rw [hevents.count_eq, List.count_append, ((walked hnodup).withTrailing_perm honce).count_eq,
    List.count_eq_one_of_mem hnodup he, List.filter_filter]
  congr 1
  split_ifs with hw
  · refine List.count_eq_one_of_mem (hnodup.filter _) (List.mem_filter.mpr ⟨he, ?_⟩)
    have hwaits := Bool.and_eq_true_iff.mp hw.1
    simp [waitsUnder, hw.2, hwaits.1, hwaits.2]
  · refine List.count_eq_zero.mpr fun hmem => hw ?_
    have hprop := (List.mem_filter.mp hmem).2
    simp only [waitsUnder, Bool.and_eq_true] at hprop
    exact ⟨Bool.and_eq_true_iff.mpr ⟨hprop.2, hprop.1.1⟩, hprop.1.2⟩

/-- A bubble that two agents take up shows its output twice. -/
theorem resumedOnce_of_once (hnodup : events.Nodup)
    (h : ∀ e ∈ events, e.closes = true → occurs (buildFeedItems sets events streaming) e = 1) :
    ResumedOnce events := by
  by_contra honce
  obtain ⟨x, hx, hc, htwo⟩ := (walked hnodup).count_of_not_resumedOnce sets
    streaming hnodup honce
  obtain ⟨-, -, -, -, hevents⟩ := feed_spec sets streaming hnodup
  have hone := h x hx hc
  unfold occurs at hone
  rw [hevents.count_eq, List.count_append] at hone
  omega

end Placed

/-! ## The ids of the rows -/

section Ids

variable {events : List AgentEvent} {sets : SetOrder} {streaming : Finset Str} {x y : AgentEvent}

theorem keepsRow_iff (sets : SetOrder) (hnodup : events.Nodup) :
    KeepsRow events streaming y ↔
    (y.kind == .permissionRequest &&
      answeredUnder ((walk events).withTrailing sets streaming) y) = false := by
  have hcarded := carded_iff sets streaming hnodup y
  unfold KeepsRow AgentEvent.answered answeredUnder
  cases hc : carded ((walk events).withTrailing sets streaming) y with
  | true =>
    rw [hc, eq_self, true_iff] at hcarded
    have hno : ¬ (¬ Live events streaming (ownerFor y) ∧ ∀ x ∈ bubbles events, fits events y x = false) := by
      rintro ⟨hlive, hfits⟩
      rcases hcarded with h | ⟨x, hx, hf⟩
      · exact hlive h
      · rw [hfits x hx] at hf
        cases hf
    simp [hno]
  | false =>
    rw [hc, Bool.false_eq_true, false_iff, not_or, not_exists] at hcarded
    refine ⟨fun _ => by simp, fun _ _ => ⟨hcarded.1, fun x hx => ?_⟩⟩
    have hx' := hcarded.2 x
    simpa [hx] using hx'

/-- The ids of the rows: those of the events that have a row, and those of the running cards. -/
theorem ids_perm (hnodup : events.Nodup) :
    ((buildFeedItems sets events streaming).map FeedItem.id).Perm
      (((shownRows events).filter fun y => !(y.kind == .permissionRequest &&
          answeredUnder ((walk events).withTrailing sets streaming) y)).map
        (fun y => (rowOf events y).id) ++
      ((walk events).ordered sets streaming).map ("stream-".toList ++ ·)) := by
  obtain ⟨-, -, -, hrequests, -⟩ := feed_spec sets streaming hnodup
  have hfaces (l : List FeedItem) : (l.map FeedItem.face).map FeedItem.id = l.map FeedItem.id := by
    rw [List.map_map]
    exact List.map_congr_left fun _ _ => id_face
  have hparts := (perm_base_requests (buildFeedItems sets events streaming)).symm.map FeedItem.id
  rw [List.map_append, List.map_map, ← hfaces (base _), faces_base_feed hnodup, faces_base hnodup,
    List.map_append, List.map_map, running, List.map_map] at hparts
  -- The rows are requests or not.
  have hsplit := (List.filter_append_perm (fun y : AgentEvent => y.kind != .permissionRequest)
    ((shownRows events).filter fun y => !(y.kind == .permissionRequest &&
      answeredUnder ((walk events).withTrailing sets streaming) y))).map
        fun y => (rowOf events y).id
  rw [List.map_append, List.filter_filter, List.filter_filter] at hsplit
  have hothers : ((shownRows events).filter fun y => y.kind != .permissionRequest &&
      !(y.kind == .permissionRequest &&
        answeredUnder ((walk events).withTrailing sets streaming) y)) =
      (shownRows events).filter (·.kind != .permissionRequest) := by
    refine List.filter_congr fun y _ => ?_
    cases hk : y.kind == .permissionRequest <;> simp [bne, hk]
  have hasked : ((shownRows events).filter fun y => !(y.kind != .permissionRequest) &&
      !(y.kind == .permissionRequest &&
        answeredUnder ((walk events).withTrailing sets streaming) y)) =
      (events.filter (·.kind == .permissionRequest)).filter fun y =>
        !answeredUnder ((walk events).withTrailing sets streaming) y := by
    rw [← shownRows_filter, List.filter_filter]
    refine List.filter_congr fun y _ => ?_
    cases hk : y.kind == .permissionRequest <;> simp [bne, hk]
  rw [hothers, hasked] at hsplit
  have hids : (((events.filter (·.kind == .permissionRequest)).filter fun y =>
      !answeredUnder ((walk events).withTrailing sets streaming) y).map fun y => (rowOf events y).id) =
      ((events.filter (·.kind == .permissionRequest)).filter fun y =>
        !answeredUnder ((walk events).withTrailing sets streaming) y).map
          (FeedItem.id ∘ FeedItem.permission) := by
    refine List.map_congr_left fun y hy => ?_
    have hk := (List.mem_filter.mp (List.mem_of_mem_filter hy)).2
    rw [beq_iff_eq] at hk
    rw [Function.comp, rowOf, hk]
  rw [hids] at hsplit
  refine hparts.trans ?_
  refine List.Perm.trans ?_ (hsplit.append_right _)
  rw [List.append_assoc, List.append_assoc]
  refine List.Perm.append_left _ (List.perm_append_comm.trans ?_)
  exact (hrequests.map _).append_right _

/-- The letters in front of the ids of the rows. -/
def rowPrefix : EventKind → Str
  | .permissionRequest => "perm-".toList
  | .planUpdate => "todo-".toList
  | .error => "err-".toList
  | .output => "turn-".toList
  | .userPrompt | .runtime | .other => "user-".toList

theorem id_rowOf (h : x.closes = true → x.turn = []) (hx : x ∈ openers events) :
    (rowOf events x).id = rowPrefix x.kind ++ x.id := by
  cases hc : x.closes with
  | true =>
    rw [rowOf_closes hc, closes_kind hc, FeedItem.id, FeedWalk.rowTurnID, if_neg (by simp [h hc])]
    rfl
  | false =>
    have hk := kind_ne_output hx hc
    unfold rowOf
    cases hkind : x.kind <;> first | exact absurd hkind hk | rfl

theorem rowPrefix_append_inj {k k' : EventKind} {a b : Str}
    (h : rowPrefix k ++ a = rowPrefix k' ++ b) : a = b := by
  -- The letters end with the first hyphen.
  have hdrop (k : EventKind) (a : Str) : (rowPrefix k ++ a).dropWhile (· != '-') = '-' :: a := by
    cases k <;> simp [rowPrefix]
  have hcons := (hdrop k a).symm.trans (h ▸ hdrop k' b)
  exact (List.cons.inj hcons).2

theorem rowPrefix_ne_stream {k : EventKind} {a b : Str} : rowPrefix k ++ a ≠ "stream-".toList ++ b := by
  intro h
  cases k <;> simp [rowPrefix] at h

/-- The ids are different if no turn id of a bubble is the id of another row. -/
theorem nodup_ids_iff (hids : (events.map (·.id)).Nodup) :
    ((buildFeedItems sets events streaming).map FeedItem.id).Nodup ↔
      (∀ x ∈ bubbles events, x.turn ≠ [] → ∀ y ∈ shownRows events, y ≠ x →
        KeepsRow events streaming y → (rowOf events y).id ≠ x.turn) ∧
      ∀ x ∈ bubbles events, x.turn ≠ [] → ∀ a, Live events streaming a →
        "stream-".toList ++ a ≠ x.turn := by
  have hnodup : events.Nodup := List.Nodup.of_map _ hids
  have hkeeps (y) : KeepsRow events streaming y ↔ _ := keepsRow_iff sets hnodup
  have hkept (y) : y ∈ (shownRows events).filter (fun y => !(y.kind == .permissionRequest &&
      answeredUnder ((walk events).withTrailing sets streaming) y)) ↔
      y ∈ shownRows events ∧ KeepsRow events streaming y := by
    rw [List.mem_filter, hkeeps, Bool.not_eq_true']
  have hbubble {x} (hx : x ∈ bubbles events) (ht : x.turn ≠ []) :
      (x ∈ shownRows events ∧ KeepsRow events streaming x) ∧ (rowOf events x).id = x.turn := by
    obtain ⟨hshown, hc⟩ := List.mem_filter.mp hx
    refine ⟨⟨hshown, fun hans => ?_⟩, ?_⟩
    · simp [AgentEvent.answered, closes_kind hc] at hans
    · rw [rowOf_closes hc, FeedItem.id, FeedWalk.rowTurnID, if_pos ht]
  have hkeptNodup := ((hnodup.filter (opensRow events)).filter (!resumed events ·)).filter
    fun y => !(y.kind == .permissionRequest &&
      answeredUnder ((walk events).withTrailing sets streaming) y)
  rw [(ids_perm hnodup).nodup_iff, List.nodup_append]
  constructor
  · rintro ⟨hrows, -, hdisjoint⟩
    refine ⟨fun x hx ht y hy hne hky heq => hne ?_, fun x hx ht a ha heq => ?_⟩
    · obtain ⟨hxkept, hxid⟩ := hbubble hx ht
      exact (List.nodup_map_iff_inj_on hkeptNodup).mp hrows y ((hkept y).mpr ⟨hy, hky⟩) x
        ((hkept x).mpr hxkept) (heq.trans hxid.symm)
    · obtain ⟨hxkept, hxid⟩ := hbubble hx ht
      refine hdisjoint x.turn (List.mem_map.mpr ⟨x, (hkept x).mpr hxkept, hxid⟩) x.turn ?_ rfl
      exact List.mem_map.mpr ⟨a, ((walked hnodup).mem_ordered sets streaming a).mpr ha, heq⟩
  · rintro ⟨hrows, hstreams⟩
    -- A row is a bubble with a turn id, or its id tells its event.
    have hcases (x) (hx : x ∈ shownRows events) :
        (x ∈ bubbles events ∧ x.turn ≠ []) ∨ (rowOf events x).id = rowPrefix x.kind ++ x.id := by
      by_cases hb : x.closes = true ∧ x.turn ≠ []
      · exact .inl ⟨List.mem_filter.mpr ⟨hx, hb.1⟩, hb.2⟩
      · refine .inr (id_rowOf (fun hc => ?_) (List.mem_of_mem_filter hx))
        by_contra ht
        exact hb ⟨hc, ht⟩
    refine ⟨(List.nodup_map_iff_inj_on hkeptNodup).mpr fun x hx y hy heq => ?_, ?_, ?_⟩
    · obtain ⟨hxs, hxk⟩ := (hkept x).mp hx
      obtain ⟨hys, hyk⟩ := (hkept y).mp hy
      by_contra hne
      rcases hcases x hxs with ⟨hxb, hxt⟩ | hxid
      · exact hrows x hxb hxt y hys (Ne.symm hne) hyk (heq.symm.trans (hbubble hxb hxt).2)
      · rcases hcases y hys with ⟨hyb, hyt⟩ | hyid
        · exact hrows y hyb hyt x hxs hne hxk (heq.trans (hbubble hyb hyt).2)
        · rw [hxid, hyid] at heq
          have hmem (z) (hz : z ∈ shownRows events) : z ∈ events :=
            List.mem_of_mem_filter (List.mem_of_mem_filter hz)
          exact hne (List.inj_on_of_nodup_map hids (hmem x hxs) (hmem y hys) (rowPrefix_append_inj heq))
    · exact ((walked hnodup).nodup_ordered sets streaming).map fun a b hab => List.append_cancel_left hab
    · rintro id hid id' hid' rfl
      obtain ⟨x, hx, hxid⟩ := List.mem_map.mp hid
      obtain ⟨a, ha, haid⟩ := List.mem_map.mp hid'
      obtain ⟨hxs, -⟩ := (hkept x).mp hx
      rcases hcases x hxs with ⟨hxb, hxt⟩ | hxid'
      · exact hstreams x hxb hxt a (((walked hnodup).mem_ordered sets streaming a).mp ha)
          (haid.trans (hxid.symm.trans (hbubble hxb hxt).2))
      · exact rowPrefix_ne_stream (hxid'.symm.trans (hxid.trans haid.symm))

end Ids

/-! ## One card for a turn -/

section Turns

variable {events : List AgentEvent} {sets : SetOrder} {streaming : Finset Str} {x y : AgentEvent}

/-- The last output of a turn has its key. -/
theorem key_bubbleEnd (events : List AgentEvent) (x : AgentEvent) : (bubbleEnd events x).key = x.key := by
  unfold bubbleEnd
  split_ifs with hkey
  · rfl
  · cases hlast : (events.filter fun y => y.closes && y.key == x.key).getLast? with
    | none => rfl
    | some y =>
      have hy := (List.mem_filter.mp (List.mem_of_getLast? hlast)).2
      rw [Bool.and_eq_true, beq_iff_eq] at hy
      exact hy.2

theorem key_of_turn (hturn : x.turn = y.turn) (howner : ownerFor x = ownerFor y) (h : x.turn ≠ []) :
    x.key = y.key := by
  unfold AgentEvent.key AgentEvent.turn at *
  rw [howner]
  cases hx : x.turnID with
  | none => simp [hx] at h
  | some t =>
    cases hy : y.turnID with
    | none =>
      rw [hx, hy] at hturn
      simp [hx] at h
      exact absurd hturn h
    | some u =>
      rw [hx, hy] at hturn
      rw [show t = u from hturn]

private theorem nodup_filterMap {α β : Type} {l : List α} {f : α → Option β} (hl : l.Nodup)
    (h : ∀ a ∈ l, ∀ a' ∈ l, ∀ b, f a = some b → f a' = some b → a = a') : (l.filterMap f).Nodup := by
  induction l with
  | nil => exact List.nodup_nil
  | cons a l ih =>
    obtain ⟨ha, hl⟩ := List.nodup_cons.mp hl
    have hrest := ih hl fun c hc d hd => h c (List.mem_cons_of_mem _ hc) d (List.mem_cons_of_mem _ hd)
    cases hf : f a with
    | none => rwa [List.filterMap_cons_none hf]
    | some b =>
      rw [List.filterMap_cons_some hf]
      refine List.nodup_cons.mpr ⟨fun hmem => ha ?_, hrest⟩
      obtain ⟨c, hc, hfc⟩ := List.mem_filterMap.mp hmem
      exact h a List.mem_cons_self c (List.mem_cons_of_mem _ hc) b hf hfc ▸ hc

/-- The turns of the shown bubbles and of the running cards are different. -/
theorem nodup_turns (hnodup : events.Nodup)
    (hturns : ∀ x ∈ events, ∀ y ∈ events, x.turn = y.turn → x.turn ≠ [] → ownerFor x = ownerFor y) :
    ((buildFeedItems sets events streaming).filterMap (·.turnOf events)).Nodup := by
  have hfaces (l : List FeedItem) : (l.map FeedItem.face).filterMap (·.turnOf events) =
      l.filterMap (·.turnOf events) := by
    rw [List.filterMap_map]
    exact congrArg (List.filterMap · l) (funext fun _ => turnOf_face)
  have hnone (l : List AgentEvent) :
      (l.map FeedItem.permission).filterMap (·.turnOf events) = [] := by
    rw [List.filterMap_map]
    exact List.filterMap_eq_nil_iff.mpr fun _ _ => rfl
  have hperm := (perm_base_requests (buildFeedItems sets events streaming)).filterMap
    (·.turnOf events)
  rw [List.filterMap_append, hnone, List.append_nil, ← hfaces, faces_base_feed hnodup,
    faces_base hnodup, List.filterMap_append, List.filterMap_map, running, List.filterMap_map] at hperm
  -- What the row of a shown event says of its turn.
  have hbubble {z : AgentEvent} {p : Str × Str} (hz : z ∈ shownRows events)
      (hp : (rowOf events z).turnOf events = some p) : z.closes = true ∧ z.key ≠ none ∧
        (bubbleEnd events z) ∈ events ∧ p = (ownerFor z, (bubbleEnd events z).turn) ∧
        (bubbleEnd events z).turn ≠ [] := by
    have hopener := List.mem_of_mem_filter hz
    by_cases hc : z.closes = true
    · rw [rowOf_closes hc, FeedItem.turnOf] at hp
      split_ifs at hp with hend
      refine ⟨hc, fun hkey => hend ?_, (closes_bubbleEnd (List.mem_of_mem_filter hopener) hc).2,
        (Option.some.inj hp).symm, hend⟩
      rw [bubbleEnd, if_pos hkey]
      exact turnKey_eq_none.mp hkey
    · have hk := kind_ne_output hopener (by simpa using hc)
      unfold rowOf at hp
      cases hkind : z.kind <;> first | exact absurd hkind hk | (rw [hkind] at hp; cases hp)
  refine hperm.nodup_iff.mp (List.nodup_append.mpr ⟨?_, ?_, ?_⟩)
  · refine nodup_filterMap (((hnodup.filter (opensRow events)).filter (!resumed events ·)).filter
      (·.kind != .permissionRequest)) fun z hz z' hz' p hp hp' => ?_
    obtain ⟨hc, hkey, hend, rfl, hne⟩ := hbubble (List.mem_of_mem_filter hz) hp
    obtain ⟨hc', -, hend', hpair, -⟩ := hbubble (List.mem_of_mem_filter hz') hp'
    obtain ⟨-, hturn⟩ := Prod.mk.inj hpair
    refine opener_unique (List.mem_of_mem_filter (List.mem_of_mem_filter hz))
      (List.mem_of_mem_filter (List.mem_of_mem_filter hz')) hc hc' ?_ hkey
    rw [← key_bubbleEnd events, ← key_bubbleEnd events z']
    exact key_of_turn hturn (hturns _ hend _ hend' hturn hne) hne
  · refine List.Nodup.filterMap (fun a b p ha hb => ?_) ((walked hnodup).nodup_ordered sets streaming)
    obtain ⟨t, -, rfl⟩ := Option.map_eq_some_iff.mp ha
    obtain ⟨u, -, hu⟩ := Option.map_eq_some_iff.mp hb
    exact (Prod.mk.inj hu).1.symm
  · -- The turn of a bubble that is shown is no open turn.
    rintro p hp p' hp' rfl
    obtain ⟨z, hz, hzp⟩ := List.mem_filterMap.mp hp
    obtain ⟨a, -, hap⟩ := List.mem_filterMap.mp hp'
    have hshown := List.mem_of_mem_filter hz
    obtain ⟨hc, hkey, hend, rfl, hne⟩ := hbubble hshown hzp
    obtain ⟨t, ht, hpair⟩ := Option.map_eq_some_iff.mp hap
    obtain ⟨rfl, rfl⟩ := Prod.mk.inj hpair
    have hopen : openKey events (ownerFor z) = some (ownerFor z ++ '|' :: (bubbleEnd events z).turn) := by
      rw [openKey, ht, turnKey, if_neg hne]
    obtain ⟨y, hy, hyt, -⟩ := exists_of_openKey hopen
    obtain ⟨hyev, hyo, -⟩ := mem_openTurn hy
    have hturn : (bubbleEnd events z).turn = y.turn := Option.some.inj (ht.symm.trans hyt)
    have howner := hturns _ hend y hyev hturn hne
    have hres : resumed events z = true := by
      unfold resumed
      simp only [hc, Bool.true_and, Bool.and_eq_true, bne_iff_ne, List.any_eq_true, beq_iff_eq]
      refine ⟨hkey, y, hyev, ?_⟩
      rw [hyo, hopen, ← key_bubbleEnd events, AgentEvent.key, howner, hyo]
      cases hid : (bubbleEnd events z).turnID with
      | none => simp [AgentEvent.turn, hid] at hne
      | some u =>
        have hu : (bubbleEnd events z).turn = u := by rw [AgentEvent.turn, hid]; rfl
        rw [hu] at hne ⊢
        rw [turnKey, if_neg hne]
    have hno := (List.mem_filter.mp hshown).2
    rw [hres] at hno
    cases hno

end Turns

/-! ## The feed -/

/-- The feed keeps every event, under different ids and with one card for a turn, exactly if each request finds
    the card of its own turn, no bubble is taken up by two agents, and no turn id of a bubble is the id of
    another row. -/
theorem feed_conserves_iff (sets : SetOrder) (events : List AgentEvent) (streaming : Finset Str)
    (hids : (events.map (·.id)).Nodup)
    (hturns : ∀ x ∈ events, ∀ y ∈ events, x.turn = y.turn → x.turn ≠ [] → ownerFor x = ownerFor y) :
    Conserves events (buildFeedItems sets events streaming) ↔ CardsApart events streaming := by
  have hnodup : events.Nodup := List.Nodup.of_map _ hids
  have hkind {e : AgentEvent} (he : e.waits = true ∨ e.answered = true) : e.kind = .permissionRequest := by
    rcases he with he | he <;> exact beq_iff_eq.mp (Bool.and_eq_true_iff.mp he).1
  have hfirst {e : AgentEvent} (ht : e.turn ≠ []) :
      FirstOwn sets events streaming e ↔ FindsOwn events streaming e := findsOwn_iff hnodup ht
  constructor
  · intro h
    have honce : ResumedOnce events := by
      refine resumedOnce_of_once hnodup fun e he hc => h.once e he fun hw => ?_
      have hk := hkind (.inl hw.1)
      rw [closes_kind hc] at hk
      cases hk
    refine ⟨honce, fun e he hw ht => (hfirst ht).mp ?_, fun e he ha ht hshown => (hfirst ht).mp ?_,
      ((nodup_ids_iff hids).mp h.ids).1, ((nodup_ids_iff hids).mp h.ids).2⟩
    · intro item hitem
      have hc : carded ((walk events).withTrailing sets streaming) e = true := by
        rw [← carded_base]
        exact List.any_eq_true.mpr ⟨item, List.mem_of_find?_eq_some hitem, List.find?_some hitem⟩
      -- The request is in a card, so its turn has one.
      have hcard : HasCard events (buildFeedItems sets events streaming) e := by
        by_contra hno
        have hone := h.once e he fun hboth => hno hboth.2
        rw [occurs_feed sets streaming hnodup honce he, if_pos ⟨hw, hc⟩] at hone
        omega
      obtain ⟨-, -, card, hmem, hturn, hin⟩ := h.waiting e he hw hcard
      exact firstOwn_of_mem_card hnodup (hkind (.inl hw)) hmem hturn hin item hitem
    · obtain ⟨-, card, hmem, hturn, hin⟩ := h.answered e he ha ((hasCard_iff hnodup ht).mpr hshown)
      exact firstOwn_of_mem_card hnodup (hkind (.inr ha)) hmem hturn hin
  · intro h
    have hcount {e : AgentEvent} (he : e ∈ events) := occurs_feed sets streaming
      hnodup h.resumedOnce he
    have hown {e : AgentEvent} (he : e ∈ events) (hw : e.waits = true) :
        FirstOwn sets events streaming e := by
      by_cases ht : e.turn = []
      · exact firstOwn_of_blank ht
      · exact (hfirst ht).mpr (h.waiting e he hw ht)
    obtain ⟨-, -, -, hrequests, -⟩ := feed_spec sets streaming hnodup
    have hrow (e : AgentEvent) : .permission e ∈ buildFeedItems sets events streaming ↔
        (e ∈ events ∧ e.kind = .permissionRequest) ∧
          answeredUnder ((walk events).withTrailing sets streaming) e = false := by
      rw [← mem_requests, hrequests.mem_iff, List.mem_filter, List.mem_filter, beq_iff_eq,
        Bool.not_eq_true']
    refine ⟨fun e he hnot => ?_, fun e he hw hcard => ⟨?_, (hrow e).mpr ⟨⟨he, hkind (.inl hw)⟩, ?_⟩, ?_⟩,
      fun e he ha hcard => ⟨fun hmem => ?_, ?_⟩, (nodup_ids_iff hids).mpr ⟨h.rowIDs, h.streamIDs⟩,
      nodup_turns hnodup hturns⟩
    · rw [hcount he, if_neg ?_]
      rintro ⟨hw, hc⟩
      -- The card that the request finds is one of its turn.
      rw [← carded_base] at hc
      have hsome : ((base ((walk events).withTrailing sets streaming)).find? (anchors e)).isSome := by
        rw [List.find?_isSome]
        exact List.any_eq_true.mp hc
      obtain ⟨item, hitem⟩ := Option.isSome_iff_exists.mp hsome
      refine hnot ⟨hw, hasCard_iff_face.mpr ?_⟩
      rw [faces_base_feed hnodup]
      exact ⟨item.face, List.mem_map_of_mem (List.mem_of_find?_eq_some hitem),
        (ofTurn_of_face (by cases item <;> rfl)).mpr (hown he hw item hitem)⟩
    · rw [hcount he, if_pos ⟨hw, carded_of_hasCard hnodup hcard⟩]
    · have hwaits : e.isComplete = false := by simpa using (Bool.and_eq_true_iff.mp hw).2
      rw [answeredUnder, hwaits, Bool.false_and]
    · exact exists_own_card hnodup he (hkind (.inl hw)) (hown he hw) (carded_of_hasCard hnodup hcard)
    · have hno := ((hrow e).mp hmem).2
      rw [answeredUnder, (Bool.and_eq_true_iff.mp ha).2, carded_of_hasCard hnodup hcard] at hno
      cases hno
    · refine exists_own_card hnodup he (hkind (.inr ha)) ?_ (carded_of_hasCard hnodup hcard)
      by_cases ht : e.turn = []
      · exact firstOwn_of_blank ht
      · exact (hfirst ht).mpr (h.answered e he ha ht ((hasCard_iff hnodup ht).mp hcard))

/-- An event of a turn of an agent. -/
def eventOf (id eventType agent turnID : String) (isComplete : Bool) : AgentEvent :=
  ⟨id.toList, eventType.toList, isComplete, some agent.toList, some turnID.toList⟩

/-- An agent asks in the turn of its reply. -/
theorem feed_conserves_reply :
    Conserves [eventOf "e1" "output" "a" "T1" true, eventOf "e2" "permission_request" "a" "T1" false]
      (buildFeedItems sortedSets
        [eventOf "e1" "output" "a" "T1" true, eventOf "e2" "permission_request" "a" "T1" false] ∅) := by
  have hbubbles : bubbles [eventOf "e1" "output" "a" "T1" true, eventOf "e2" "permission_request" "a" "T1" false] =
      [eventOf "e1" "output" "a" "T1" true] := by decide
  have hfits : fits [eventOf "e1" "output" "a" "T1" true, eventOf "e2" "permission_request" "a" "T1" false]
      (eventOf "e2" "permission_request" "a" "T1" false) (eventOf "e1" "output" "a" "T1" true) = true := by decide
  refine (feed_conserves_iff sortedSets _ ∅ (by decide) (by decide)).mpr
    ⟨by decide, fun e he hw _ => ?_, fun e he ha _ _ => ?_, fun x hx _ => ?_, fun x hx _ a _ heq => ?_⟩
  · rcases List.mem_pair.mp he with rfl | rfl
    · exact absurd hw (by decide)
    · refine ⟨fun x hx => ?_, fun hno => ?_⟩
      · rw [hbubbles, List.find?_cons_of_pos hfits] at hx
        obtain rfl := Option.some.inj hx
        decide
      · rw [hbubbles] at hno
        exact absurd (hno _ List.mem_cons_self) (by simp [hfits])
  · rcases List.mem_pair.mp he with rfl | rfl <;> exact absurd ha (by decide)
  · rw [hbubbles, List.mem_singleton] at hx
    subst hx
    have hids : ∀ y ∈ shownRows
        [eventOf "e1" "output" "a" "T1" true, eventOf "e2" "permission_request" "a" "T1" false],
        y ≠ eventOf "e1" "output" "a" "T1" true → (rowOf
          [eventOf "e1" "output" "a" "T1" true, eventOf "e2" "permission_request" "a" "T1" false] y).id ≠
            (eventOf "e1" "output" "a" "T1" true).turn := by decide
    exact fun y hy hne _ => hids y hy hne
  · rw [hbubbles, List.mem_singleton] at hx
    subst hx
    simp [eventOf, AgentEvent.turn] at heq

/-- A turn is open, and a request of the next turn goes into its card. -/
theorem asked_in_another_turn :
    (eventOf "e1" "thinking" "a" "T1" false).turn ≠ (eventOf "e2" "permission_request" "a" "T2" false).turn ∧
    ¬ Conserves [eventOf "e1" "thinking" "a" "T1" false, eventOf "e2" "permission_request" "a" "T2" false]
      (buildFeedItems sortedSets
        [eventOf "e1" "thinking" "a" "T1" false, eventOf "e2" "permission_request" "a" "T2" false] ∅) := by
  refine ⟨by decide, fun h => ?_⟩
  have hone := h.once (eventOf "e2" "permission_request" "a" "T2" false) (by simp) ?_
  · exact absurd hone (by decide +kernel)
  · rintro ⟨-, item, hitem, hturn⟩
    have hfeed : buildFeedItems sortedSets
        [eventOf "e1" "thinking" "a" "T1" false, eventOf "e2" "permission_request" "a" "T2" false] ∅ =
      [.activeStream "stream-a".toList "a".toList
        [eventOf "e1" "thinking" "a" "T1" false, eventOf "e2" "permission_request" "a" "T2" false],
        .permission (eventOf "e2" "permission_request" "a" "T2" false)] := by decide +kernel
    rw [hfeed] at hitem
    rcases List.mem_pair.mp hitem with rfl | rfl
    · exact absurd ((ofTurn_running (by decide)).mp hturn).2 (by decide)
    · exact absurd (anchors_of_ofTurn hturn) (by decide)

end TeamClu.Feed
