import TeamClu.Spec.FeedPlaces

/-!
# The order of the chat feed

The running cards stand in the order in which their open turns began, a waiting request stands under the card of
its turn, and a request whose turn has no card keeps its place among the other rows.  The code does this if the
ids of the first events rise with their places, each request finds its own card, and the requests without a card
are put back before anything can shift their indices.

Key results:

* `inOrder_of_keepsPlaces`: a condition for the order of the feed
-/

namespace TeamClu.Feed

/-! ## What is asked of the order -/

/-- The agent of a running card. -/
def FeedItem.running? : FeedItem → Option Str
  | activeStream _ agentID _ => some agentID
  | _ => none

/-- The open turn of one agent began before that of another. -/
def BeganBefore (events : List AgentEvent) (a b : Str) : Prop :=
  ∃ x y, (openTurn events a).head? = some x ∧ (openTurn events b).head? = some y ∧ [x, y].Sublist events

/-- The events before a request that have a row, other requests apart. -/
def rowsOver (events : List AgentEvent) (e : AgentEvent) : List AgentEvent :=
  ((shownRows events).takeWhile (· != e)).filter (·.kind != .permissionRequest)

/-- The feed follows the conversation. -/
structure InOrder (events : List AgentEvent) (feed : List FeedItem) : Prop where
  running : ((feed.filterMap FeedItem.running?).filter (openTurn events · ≠ [])).Pairwise
    (BeganBefore events)
  under : ∀ card ∈ feed, ∀ e ∈ card.runtime, e.waits = true → e.turn ≠ [] → card.OfTurn events e ∧
    ∃ A B D, feed = A ++ card :: ((B ++ [e]).map .permission ++ D) ∧ (∀ q ∈ B, q ∈ card.runtime) ∧
      (B ++ [e]).Sublist events
  kept : ∀ e ∈ events, e.kind = .permissionRequest → ¬ HasCard events feed e →
    ∃ A D, feed = A ++ .permission e :: D ∧
      (base A).map FeedItem.face = (rowsOver events e).map (rowOf events)

/-! ## When the code does it -/

/-- No card fits a request. -/
def NoCard (events : List AgentEvent) (streaming : Finset Str) (e : AgentEvent) : Prop :=
  e.kind = .permissionRequest ∧ ¬ Live events streaming (ownerFor e) ∧
    ∀ x ∈ bubbles events, fits events e x = false

/-- The ids rise with the turns, the requests find their own cards, and those without one stay put. -/
structure KeepsPlaces (events : List AgentEvent) (streaming : Finset Str) : Prop where
  began : ∀ a b x y, (openTurn events a).head? = some x → (openTurn events b).head? = some y →
    [x, y].Sublist events → x.id < y.id
  waiting : ∀ e ∈ events, e.waits = true → e.turn ≠ [] → FindsOwn events streaming e
  answered : ∀ e ∈ events, e.answered = true → e.turn ≠ [] → ¬ TurnShown events e →
    NoCard events streaming e
  together : ∀ d ∈ events, ∀ e ∈ events, NoCard events streaming d → NoCard events streaming e →
    (rowsOver events d).length = (rowsOver events e).length
  below : ∀ d ∈ events, ∀ e ∈ events, d.waits = true → d.turn ≠ [] → NoCard events streaming e →
    ∀ x, (bubbles events).find? (fits events d) = some x →
      (rowsOver events x).length + 1 ≠ (rowsOver events e).length
  above : ∀ d e, d.waits = true → NoCard events streaming e → [d, e].Sublist events →
    ∀ x, (bubbles events).find? (fits events d) = some x →
      (rowsOver events e).length ≤ (rowsOver events x).length + 1

/-! ## The running cards -/

section Running

variable {events : List AgentEvent} {sets : SetOrder} {streaming : Finset Str}

/-- The running cards of the feed. -/
theorem running_feed (hnodup : events.Nodup) :
    (buildFeedItems sets events streaming).filterMap FeedItem.running? =
      (walk events).ordered sets streaming := by
  have hbase (l : List FeedItem) : l.filterMap FeedItem.running? = (base l).filterMap FeedItem.running? := by
    unfold base
    rw [List.filterMap_filter]
    refine List.filterMap_congr fun item _ => ?_
    cases item <;> rfl
  have hface (l : List FeedItem) :
      l.filterMap FeedItem.running? = (l.map FeedItem.face).filterMap FeedItem.running? := by
    rw [List.filterMap_map]
    refine List.filterMap_congr fun item _ => ?_
    cases item <;> rfl
  have hnone : (((shownRows events).filter (·.kind != .permissionRequest)).map (rowOf events)).filterMap
      FeedItem.running? = [] := by
    rw [List.filterMap_map, List.filterMap_eq_nil_iff]
    intro x _
    rw [Function.comp, rowOf]
    cases x.kind <;> rfl
  have hcards (agents : List Str) : (running agents).filterMap FeedItem.running? = agents := by
    rw [running, List.filterMap_map]
    exact List.filterMap_some
  rw [hbase, hface, faces_base_feed hnodup, faces_base hnodup, List.filterMap_append, hnone, hcards,
    List.nil_append]

/-- The first event of an open turn. -/
theorem exists_head_openTurn {a : Str} (h : openTurn events a ≠ []) :
    ∃ x, (openTurn events a).head? = some x ∧ x ∈ events ∧ ownerFor x = a := by
  cases hl : openTurn events a with
  | nil => exact absurd hl h
  | cons x xs =>
    obtain ⟨hx, ho, -⟩ := mem_openTurn (hl ▸ List.mem_cons_self)
    exact ⟨x, rfl, hx, ho⟩

/-- Of two events of a list one comes first. -/
theorem sublist_pair_or {α : Type} {l : List α} {x y : α} (hx : x ∈ l) (hy : y ∈ l) (hne : x ≠ y) :
    [x, y].Sublist l ∨ [y, x].Sublist l := by
  obtain ⟨A, B, rfl⟩ := List.append_of_mem hx
  rcases List.mem_append.mp hy with hA | hB
  · exact .inr ((List.singleton_sublist.mpr hA).append (List.singleton_sublist.mpr List.mem_cons_self))
  · rcases List.mem_cons.mp hB with rfl | hB
    · exact absurd rfl hne
    · refine .inl (List.Sublist.trans ?_ (List.sublist_append_right A (x :: B)))
      exact (List.singleton_sublist.mpr hB).cons_cons x

theorem not_sublist_both {α : Type} [DecidableEq α] {l : List α} {x y : α} (hnodup : l.Nodup)
    (h : [x, y].Sublist l) (h' : [y, x].Sublist l) : False := by
  have hidx {u v : α} (huv : [u, v].Sublist l) : l.idxOf u < l.idxOf v := by
    obtain ⟨A, B, hAB, hu, hv⟩ := List.cons_sublist_iff.mp huv
    have hvB : v ∈ B := List.singleton_sublist.mp hv
    have hvA : v ∉ A := by
      rw [hAB] at hnodup
      exact fun hmem => (List.nodup_append.mp hnodup).2.2 v hmem v hvB rfl
    rw [hAB, List.idxOf_append_of_mem hu, List.idxOf_append_of_notMem hvA]
    have hlt := List.idxOf_lt_length_of_mem hu
    omega
  have h1 := hidx h
  have h2 := hidx h'
  omega

/-- The running cards are in order exactly if the ids of the first events are. -/
theorem running_iff (hids : (events.map (·.id)).Nodup) :
    (((buildFeedItems sets events streaming).filterMap FeedItem.running?).filter
      (openTurn events · ≠ [])).Pairwise (BeganBefore events) ↔
    ∀ a b x y, (openTurn events a).head? = some x → (openTurn events b).head? = some y →
      [x, y].Sublist events → x.id < y.id := by
  have hnodup : events.Nodup := List.Nodup.of_map _ hids
  have hw := walked hnodup
  have hsorted : ((walk events).ordered sets streaming).Pairwise fun a b =>
      StableSort.keyLe (fun a => (walk events).openTurnFirstEventID[a]?.getD a) a b = true := by
    refine List.pairwise_mergeSort (fun a b c => ?_) (fun a b => ?_) _
    · simp only [StableSort.keyLe, decide_eq_true_eq]
      exact le_trans
    · simp only [StableSort.keyLe, Bool.or_eq_true, decide_eq_true_eq]
      exact le_total _ _
  have hkey {a : Str} {x : AgentEvent} (hx : (openTurn events a).head? = some x) :
      (walk events).openTurnFirstEventID[a]?.getD a = x.id := by
    rw [hw.first, hx]
    rfl
  have hopen {a : Str} {x : AgentEvent} (hx : (openTurn events a).head? = some x) :
      openTurn events a ≠ [] ∧ x ∈ events ∧ ownerFor x = a := by
    refine ⟨fun hnil => by simp [hnil] at hx, ?_⟩
    obtain ⟨hmem, ho, -⟩ := mem_openTurn (List.mem_of_head? hx)
    exact ⟨hmem, ho⟩
  rw [running_feed hnodup]
  constructor
  · intro h a b x y hx hy hxy
    obtain ⟨hxo, hxmem, hxa⟩ := hopen hx
    obtain ⟨hyo, hymem, hyb⟩ := hopen hy
    have hne : x ≠ y := by
      have hpair := hnodup.sublist hxy
      simpa using hpair
    have hab : a ≠ b := by
      rintro rfl
      exact hne (Option.some.inj (hx.symm.trans hy))
    have hidne : x.id ≠ y.id := fun heq => hne (List.inj_on_of_nodup_map hids hxmem hymem heq)
    have hamem := (hw.mem_ordered sets streaming a).mpr (.inl hxo)
    have hbmem := (hw.mem_ordered sets streaming b).mpr (.inl hyo)
    -- The card of `a` is in front of the card of `b`.
    have horder : [a, b].Sublist ((walk events).ordered sets streaming) := by
      rcases sublist_pair_or hamem hbmem hab with hfront | hback
      · exact hfront
      · exfalso
        have hfilter := hback.filter (openTurn events · ≠ [])
        rw [List.filter_cons_of_pos (by simpa using hyo), List.filter_cons_of_pos (by simpa using hxo)] at hfilter
        obtain ⟨y', x', hy', hx', hyx⟩ := List.pairwise_iff_forall_sublist.mp h hfilter
        obtain rfl := Option.some.inj (hy.symm.trans hy')
        obtain rfl := Option.some.inj (hx.symm.trans hx')
        exact not_sublist_both hnodup hxy hyx
    have hle := List.pairwise_iff_forall_sublist.mp hsorted horder
    simp only [StableSort.keyLe, hkey hx, hkey hy, decide_eq_true_eq] at hle
    exact lt_of_le_of_ne hle hidne
  · intro h
    refine List.pairwise_iff_forall_sublist.mpr fun {a b} hab => ?_
    have hamem := List.mem_filter.mp (hab.subset List.mem_cons_self)
    have hbmem := List.mem_filter.mp (hab.subset (List.mem_cons_of_mem _ List.mem_cons_self))
    obtain ⟨x, hx, hxmem, hxa⟩ := exists_head_openTurn (by simpa using hamem.2)
    obtain ⟨y, hy, hymem, hyb⟩ := exists_head_openTurn (by simpa using hbmem.2)
    have hne : a ≠ b := by
      have hpair := (hw.nodup_ordered sets streaming).filter
        (openTurn events · ≠ []) |>.sublist hab
      simpa using hpair
    have hxy : x ≠ y := by
      rintro rfl
      exact hne (hxa.symm.trans hyb)
    have hle := List.pairwise_iff_forall_sublist.mp hsorted (hab.trans List.filter_sublist)
    simp only [StableSort.keyLe, hkey hx, hkey hy, decide_eq_true_eq] at hle
    rcases sublist_pair_or hxmem hymem hxy with hfront | hback
    · exact ⟨x, y, hx, hy, hfront⟩
    · exact absurd (h b a y x hy hx hback) (not_lt_of_ge hle)

end Running

/-! ## The place of a request -/

section Places

variable {events : List AgentEvent} {sets : SetOrder} {streaming : Finset Str} {e : AgentEvent}

theorem mem_shownRows_of_request (he : e ∈ events) (hk : e.kind = .permissionRequest) :
    e ∈ shownRows events := by
  have hmem : e ∈ (shownRows events).filter (·.kind == .permissionRequest) := by
    rw [shownRows_filter]
    exact List.mem_filter.mpr ⟨he, by simp [hk]⟩
  exact List.mem_of_mem_filter hmem

/-- A list around an element that it has once. -/
theorem exists_takeWhile {α : Type} [DecidableEq α] {l : List α} {x : α} (hx : x ∈ l) (hl : l.Nodup) :
    ∃ rest, l = l.takeWhile (· != x) ++ x :: rest ∧ x ∉ rest := by
  induction l with
  | nil => cases hx
  | cons y l ih =>
    obtain ⟨hy, hl⟩ := List.nodup_cons.mp hl
    by_cases hyx : y = x
    · subst hyx
      exact ⟨l, by rw [List.takeWhile_cons_of_neg (by simp)]; rfl, hy⟩
    · obtain ⟨rest, hrest, hnot⟩ := ih ((List.mem_cons.mp hx).resolve_left (Ne.symm hyx)) hl
      exact ⟨rest, by rw [List.takeWhile_cons_of_pos (by simpa using hyx), List.cons_append, ← hrest], hnot⟩

theorem rowOf_eq_permission {x : AgentEvent} (h : rowOf events x = .permission e) : x = e := by
  unfold rowOf at h
  cases hk : x.kind <;> rw [hk] at h <;> cases h
  rfl

/-- The rows before the requests are placed, without runtime events. -/
def facesBefore (sets : SetOrder) (events : List AgentEvent) (streaming : Finset Str) : List FeedItem :=
  (shownRows events).map (rowOf events) ++ running ((walk events).ordered sets streaming)

/-- Where the row of a request is before the requests are placed. -/
theorem base_before_request (hnodup : events.Nodup) (he : e ∈ events) (hk : e.kind = .permissionRequest)
    {A B : List FeedItem} (h : facesBefore sets events streaming = A ++ .permission e :: B) :
    base A = (rowsOver events e).map (rowOf events) := by
  have hshown : (shownRows events).Nodup := (hnodup.filter _).filter _
  obtain ⟨rest, hsplit, hnot⟩ := exists_takeWhile (mem_shownRows_of_request he hk) hshown
  have hrow : rowOf events e = .permission e := by rw [rowOf, hk]
  have hmine : facesBefore sets events streaming =
      ((shownRows events).takeWhile (· != e)).map (rowOf events) ++ .permission e ::
        (rest.map (rowOf events) ++ running ((walk events).ordered sets streaming)) := by
    unfold facesBefore
    conv_lhs => rw [hsplit]
    rw [List.map_append, List.map_cons, hrow]
    simp
  have hfront : FeedItem.permission e ∉ ((shownRows events).takeWhile (· != e)).map (rowOf events) := by
    intro hmem
    obtain ⟨x, hx, hxe⟩ := List.mem_map.mp hmem
    have hne := List.mem_takeWhile_imp hx
    rw [rowOf_eq_permission hxe] at hne
    simp at hne
  have hback : FeedItem.permission e ∉
      rest.map (rowOf events) ++ running ((walk events).ordered sets streaming) := by
    intro hmem
    rcases List.mem_append.mp hmem with hmem | hmem
    · obtain ⟨x, hx, hxe⟩ := List.mem_map.mp hmem
      exact hnot (rowOf_eq_permission hxe ▸ hx)
    · obtain ⟨a, -, hae⟩ := List.mem_map.mp hmem
      cases hae
  obtain ⟨rfl, -, -⟩ := (List.append_cons_inj_of_notMem hfront hback).mp (hmine.symm.trans h)
  unfold base rowsOver
  rw [List.filter_map]
  refine congrArg _ (List.filter_congr fun x _ => ?_)
  rw [Function.comp, isPermission_rowOf, bne]

/-- The rows that are no requests, without their runtime events. -/
def cardRows (sets : SetOrder) (events : List AgentEvent) (streaming : Finset Str) : List FeedItem :=
  ((shownRows events).filter (·.kind != .permissionRequest)).map (rowOf events) ++
    running ((walk events).ordered sets streaming)

/-- The rows around a shown event. -/
theorem rowsOver_split (hnodup : events.Nodup) (he : e ∈ shownRows events) : ∃ rest,
    (shownRows events).filter (·.kind != .permissionRequest) =
      rowsOver events e ++ (e :: rest).filter (·.kind != .permissionRequest) := by
  have hshown : (shownRows events).Nodup := (hnodup.filter _).filter _
  obtain ⟨rest, hsplit, -⟩ := exists_takeWhile he hshown
  refine ⟨rest, ?_⟩
  conv_lhs => rw [hsplit]
  exact List.filter_append ..

/-- Which card a request finds first, by its index among the rows that are no requests. -/
theorem findIdx?_cards (hnodup : events.Nodup) {i : Nat}
    (h : (cardRows sets events streaming).findIdx? (anchors e) = some i) :
    (∃ x, (bubbles events).find? (fits events e) = some x ∧ i = (rowsOver events x).length) ∨
      ((∀ x ∈ bubbles events, fits events e x = false) ∧
        ((shownRows events).filter (·.kind != .permissionRequest)).length ≤ i) := by
  rw [cardRows, List.findIdx?_append, List.findIdx?_map] at h
  cases hrow : ((shownRows events).filter (·.kind != .permissionRequest)).findIdx?
      (anchors e ∘ rowOf events) with
  | some j =>
    rw [hrow, Option.some_or] at h
    obtain rfl := Option.some.inj h
    obtain ⟨hget, hsome⟩ := FirstMatch.getElem?_of_findIdx? hrow
    obtain ⟨x, hx⟩ := Option.isSome_iff_exists.mp hsome
    refine .inl ⟨x, by rw [← find?_rows, hx], ?_⟩
    have hxmem := List.mem_filter.mp (List.mem_of_find?_eq_some hx)
    obtain ⟨rest, hrest⟩ := rowsOver_split hnodup hxmem.1
    have hR : ((shownRows events).filter (·.kind != .permissionRequest)).Nodup :=
      ((hnodup.filter _).filter _).filter _
    have hlt := (List.findIdx?_eq_some_iff_getElem.mp hrow).1
    refine (List.getElem?_inj hlt hR).mp ?_
    rw [hget, hx, hrest, List.getElem?_append_right le_rfl, Nat.sub_self, List.filter_cons,
      if_pos hxmem.2]
    rfl
  | none =>
    rw [hrow, Option.none_or, List.length_map] at h
    obtain ⟨j, -, rfl⟩ := Option.map_eq_some_iff.mp h
    have hnone : (bubbles events).find? (fits events e) = none := by
      rw [← find?_rows, List.find?_eq_none]
      simpa using List.findIdx?_eq_none_iff.mp hrow
    refine .inr ⟨by simpa using List.find?_eq_none.mp hnone, ?_⟩
    omega

end Places

/-! ## The rows of the feed -/

section Woven

variable {events : List AgentEvent} {sets : SetOrder} {streaming : Finset Str} {e : AgentEvent}

theorem base_facesBefore :
    base (facesBefore sets events streaming) = cardRows sets events streaming := by
  unfold facesBefore cardRows base
  rw [List.filter_append, List.filter_map, running, List.filter_map]
  congr 1
  · refine congrArg _ (List.filter_congr fun x _ => ?_)
    rw [Function.comp, isPermission_rowOf, bne]
  · exact congrArg _ (List.filter_eq_self.mpr fun _ _ => rfl)

theorem requests_face (items : List FeedItem) : requests (items.map FeedItem.face) = requests items := by
  unfold requests
  rw [List.filterMap_map]
  exact congrArg (List.filterMap · items) (funext fun _ => request?_face)

/-- The rows that are lifted out are seen without the runtime events. -/
theorem map_face_filter (lifts : AgentEvent → Bool) (items : List FeedItem) :
    (items.filter (!·.lifted lifts)).map FeedItem.face =
      (items.map FeedItem.face).filter (!·.lifted lifts) := by
  rw [List.filter_map]
  refine congrArg _ (List.filter_congr fun item _ => ?_)
  rw [Function.comp, FeedItem.lifted, FeedItem.lifted, request?_face]

theorem filter_lifted_all (items : List FeedItem) : items.filter (!·.lifted fun _ => true) = base items := by
  refine List.filter_congr fun item _ => ?_
  cases item <;> rfl

theorem carded_cardRows (hnodup : events.Nodup) :
    carded (cardRows sets events streaming) e =
      carded ((walk events).withTrailing sets streaming) e := by
  unfold cardRows
  rw [← faces_base hnodup, carded_face, carded_base]

/-- A request has no card if none fits it. -/
theorem noCard_iff (sets : SetOrder) (streaming : Finset Str) (hnodup : events.Nodup)
    (hk : e.kind = .permissionRequest) :
    NoCard events streaming e ↔ carded (cardRows sets events streaming) e = false := by
  have hcarded := carded_iff sets streaming hnodup e
  rw [carded_cardRows hnodup, ← Bool.not_eq_true, hcarded, not_or, NoCard]
  simp [hk]

/-- The rows while only the waiting requests are there. -/
theorem answeredBack_feed (sets : SetOrder) (streaming : Finset Str) (hnodup : events.Nodup) {place : Nat}
    (hplace : ∀ e ∈ events, NoCard events streaming e → (rowsOver events e).length = place) :
    AnsweredBack (facesBefore sets events streaming) place
      ((foldAnswered ((walk events).withTrailing sets streaming)).map FeedItem.face) := by
  have hbefore : ((walk events).withTrailing sets streaming).map FeedItem.face =
      facesBefore sets events streaming := (walked hnodup).faces_withTrailing sets streaming hnodup
  have hcarded (e) : carded (((walk events).withTrailing sets streaming).filter
      (!·.lifted (·.isComplete))) e = carded ((walk events).withTrailing sets streaming) e := by
    rw [← carded_base, base_filter_lifted, carded_base]
  unfold foldAnswered
  rw [liftOut_eq]
  simp only
  rw [foldl_placeAnswered_face, map_face_filter, hbefore]
  refine answeredBack_start.foldl _ fun entry hentry => ?_
  obtain ⟨hmem, hno⟩ := List.mem_filter.mp hentry
  rw [hcarded, Bool.not_eq_true', ← carded_cardRows hnodup] at hno
  rw [← liftEntries_face, hbefore, mem_liftEntries] at hmem
  obtain ⟨A, B, hsplit, ha, hn⟩ := hmem
  have hasked : entry.1 ∈ events ∧ entry.1.kind = .permissionRequest := by
    have hreq : entry.1 ∈ requests (facesBefore sets events streaming) :=
      mem_requests.mpr (by rw [hsplit]; simp)
    rw [← hbefore, requests_face, requests_withTrailing hnodup] at hreq
    simpa using hreq
  refine ⟨A, B, hsplit, ha, ?_, by simpa using hn⟩
  rw [base_before_request hnodup hasked.1 hasked.2 hsplit, List.length_map,
    hplace _ hasked.1 ((noCard_iff sets streaming hnodup hasked.2).mpr hno)]

/-- The rows of the feed are woven from those that are no requests. -/
theorem feed_woven (sets : SetOrder) (hnodup : events.Nodup) {place : Nat}
    (hplace : ∀ e ∈ events, NoCard events streaming e → (rowsOver events e).length = place)
    (habove : ∀ d e, d.waits = true → NoCard events streaming e → [d, e].Sublist events →
      ∀ x, (bubbles events).find? (fits events d) = some x → place ≤ (rowsOver events x).length + 1) :
    ∃ asked : List AgentEvent,
      asked.Perm ((events.filter (·.kind == .permissionRequest)).filter fun e =>
        !answeredUnder ((walk events).withTrailing sets streaming) e) ∧
      (asked.filter (!·.isComplete)).Sublist events ∧
      (buildFeedItems sets events streaming).map FeedItem.face =
        Gaps.weave FeedItem.permission (cardRows sets events streaming)
          (gaps (cardRows sets events streaming) place asked) := by
  have hbefore : ((walk events).withTrailing sets streaming).map FeedItem.face =
      facesBefore sets events streaming := (walked hnodup).faces_withTrailing sets streaming hnodup
  have hrequests : requests (facesBefore sets events streaming) =
      events.filter (·.kind == .permissionRequest) := by
    rw [← hbefore, requests_face, requests_withTrailing hnodup]
  have hback := answeredBack_feed sets streaming hnodup hplace
  obtain ⟨-, hperm, -⟩ := foldAnswered_spec ((walk events).withTrailing sets streaming)
  rw [requests_withTrailing hnodup] at hperm
  unfold buildFeedItems
  generalize foldAnswered ((walk events).withTrailing sets streaming) = L at hback hperm
  have hbase : base (L.map FeedItem.face) = cardRows sets events streaming := by
    rw [← base_filter_lifted (·.isComplete), hback.kept, base_filter_lifted, base_facesBefore]
  have hwaiting : (requests L).filter (!·.isComplete) =
      (events.filter (·.kind == .permissionRequest)).filter (!·.isComplete) := by
    rw [← requests_face, ← requests_filter_lifted, hback.kept, requests_filter_lifted, hrequests]
  have hasked {e : AgentEvent} (he : e ∈ requests L) : e ∈ events ∧ e.kind = .permissionRequest := by
    have hmem := List.mem_of_mem_filter (hperm.mem_iff.mp he)
    simpa using hmem
  refine ⟨requests L, hperm, ?_, ?_⟩
  · rw [hwaiting]
    exact List.filter_sublist.trans List.filter_sublist
  · have hrows : ∀ x ∈ cardRows sets events streaming, x.isPermission = false := by
      intro x hx
      rw [← base_facesBefore] at hx
      simpa using (List.mem_filter.mp hx).2
    unfold placeRequests
    rw [liftOut_eq]
    simp only
    rw [foldl_placePending_face, filter_lifted_all, ← liftEntries_face]
    have hstart : (base L).map FeedItem.face = cardRows sets events streaming := by
      rw [← hbase, ← filter_lifted_all, ← filter_lifted_all, map_face_filter]
    have hfirst : (liftEntries (fun _ => true) 0 (L.map FeedItem.face)).map (·.1) = requests L := by
      rw [map_liftEntries, List.filter_true, requests_face]
    rw [hstart, ← hfirst]
    refine foldl_placeRow hrows ⟨fun entry hentry hno => ?_, ?_⟩
    · -- A request without a card is where it was at first.
      obtain ⟨A, B, hsplit, -, hn⟩ := mem_liftEntries.mp hentry
      rw [filter_lifted_all, Nat.zero_add] at hn
      have hmem : entry.1 ∈ requests L := by
        rw [← requests_face]
        exact mem_requests.mpr (by rw [hsplit]; simp)
      obtain ⟨he, hk⟩ := hasked hmem
      have hplaceA : (base A).length = place := by
        cases hc : entry.1.isComplete with
        | true => exact hback.place A entry.1 B hsplit hc
        | false =>
          have hin : entry.1 ∈ requests (facesBefore sets events streaming) := by
            rw [hrequests]
            exact List.mem_filter.mpr ⟨he, by simp [hk]⟩
          obtain ⟨A₀, B₀, hfirst⟩ := List.append_of_mem (mem_requests.mp hin)
          have hone : (requests A₀ ++ entry.1 :: requests B₀).Nodup := by
            have hsame : requests A₀ ++ entry.1 :: requests B₀ =
                events.filter (·.kind == .permissionRequest) := by
              rw [← hrequests, hfirst, requests_append]
              rfl
            rw [hsame]
            exact hnodup.filter _
          obtain ⟨hnotA, hnotB⟩ : entry.1 ∉ requests A₀ ∧ entry.1 ∉ requests B₀ := by
            have hmiddle := List.nodup_middle.mp hone
            simpa [not_or] using (List.nodup_cons.mp hmiddle).1
          have hkeeps : (!(FeedItem.permission entry.1).lifted (·.isComplete)) = true := by
            simp [FeedItem.lifted, FeedItem.request?, hc]
          have hkept := hback.kept
          rw [hsplit, hfirst, List.filter_append, List.filter_append, List.filter_cons, if_pos hkeeps,
            List.filter_cons, if_pos hkeeps] at hkept
          obtain ⟨hA, -, -⟩ := (List.append_cons_inj_of_notMem
            (fun hmem => hnotA (mem_requests.mpr (List.mem_of_mem_filter hmem)))
            (fun hmem => hnotB (mem_requests.mpr (List.mem_of_mem_filter hmem)))).mp hkept.symm
          rw [← base_filter_lifted (·.isComplete) A, ← hA, base_filter_lifted,
            base_before_request hnodup he hk hfirst, List.length_map]
          exact hplace _ he ((noCard_iff sets streaming hnodup hk).mpr hno)
      refine ⟨hn.trans hplaceA, ?_⟩
      rw [← hplaceA, ← hbase, hsplit, base_append, List.length_append]
      omega
    · -- No request under an earlier card was asked before one without a card.
      refine List.pairwise_iff_forall_sublist.mpr fun {entry entry'} hpair i hi hno => ?_
      have horder : [entry.1, entry'.1].Sublist (requests L) := by
        rw [← hfirst]
        exact hpair.map fun entry : AgentEvent × Nat => entry.1
      obtain ⟨hd, hdk⟩ := hasked (horder.subset List.mem_cons_self)
      obtain ⟨he, hek⟩ := hasked (horder.subset (List.mem_cons_of_mem _ List.mem_cons_self))
      have hnoCard := (noCard_iff sets streaming hnodup hek).mpr hno
      have hdc : entry.1.isComplete = false := by
        have hnot := (List.mem_filter.mp (hperm.mem_iff.mp (horder.subset List.mem_cons_self))).2
        have hcarded : carded ((walk events).withTrailing sets streaming) entry.1 = true := by
          rw [← carded_cardRows hnodup]
          exact (modify_turnAnchor hi).2
        simpa [answeredUnder, hcarded] using hnot
      have hasks : [entry.1, entry'.1].Sublist events := by
        cases hec : entry'.1.isComplete with
        | false =>
          have hfilter := horder.filter (!·.isComplete)
          rw [hwaiting, List.filter_cons, if_pos (by simp [hdc]), List.filter_cons,
            if_pos (by simp [hec])] at hfilter
          exact hfilter.trans (List.filter_sublist.trans List.filter_sublist)
        | true =>
          obtain ⟨A, B, hsplit⟩ := List.append_of_mem (mem_requests.mp
            ((requests_face L).symm ▸ horder.subset (List.mem_cons_of_mem _ List.mem_cons_self)))
          have hA : entry.1 ∈ requests A := by
            have hL : requests L = requests A ++ entry'.1 :: requests B := by
              rw [← requests_face, hsplit, requests_append]
              rfl
            have hLnodup : (requests L).Nodup :=
              hperm.nodup_iff.mpr ((hnodup.filter _).filter _)
            have hmem := horder.subset List.mem_cons_self
            rw [hL] at hmem horder hLnodup
            rcases List.mem_append.mp hmem with hA | hB
            · exact hA
            · exfalso
              rcases List.mem_cons.mp hB with heq | hB
              · rw [heq, hec] at hdc
                cases hdc
              · refine not_sublist_both hLnodup horder ?_
                refine List.Sublist.trans ?_ (List.sublist_append_right _ _)
                exact (List.singleton_sublist.mpr hB).cons_cons _
          have hsub := hback.order A entry'.1 B hsplit hec entry.1 hA hdc
          rw [hrequests] at hsub
          exact hsub.trans List.filter_sublist
      rcases findIdx?_cards hnodup hi with ⟨x, hx, rfl⟩ | ⟨-, hle⟩
      · exact habove entry.1 entry'.1 (by simp [AgentEvent.waits, hdk, hdc]) hnoCard hasks x hx
      · have hrow := hplace _ he hnoCard
        obtain ⟨rest, hrest⟩ := rowsOver_split hnodup (mem_shownRows_of_request he hek)
        rw [hrest, List.length_append] at hle
        omega

end Woven

/-! ## The feed follows the conversation -/

section Follows

variable {events : List AgentEvent} {sets : SetOrder} {streaming : Finset Str} {e : AgentEvent}

/-- A request whose turn has no card has none that fits, if the requests find their own cards. -/
theorem noCard_of_not_hasCard (hnodup : events.Nodup) (h : KeepsPlaces events streaming)
    (he : e ∈ events) (hk : e.kind = .permissionRequest)
    (hno : ¬ HasCard events (buildFeedItems sets events streaming) e) : NoCard events streaming e := by
  rw [noCard_iff sets streaming hnodup hk, carded_cardRows hnodup]
  -- A card that fits first would be of the turn.
  have hfirst : FirstOwn sets events streaming e →
      carded ((walk events).withTrailing sets streaming) e = false := by
    intro hown
    by_contra hc
    rw [Bool.not_eq_false, ← carded_base] at hc
    have hsome : ((base ((walk events).withTrailing sets streaming)).find? (anchors e)).isSome := by
      rw [List.find?_isSome]
      exact List.any_eq_true.mp hc
    obtain ⟨item, hitem⟩ := Option.isSome_iff_exists.mp hsome
    refine hno (hasCard_iff_face.mpr ?_)
    rw [faces_base_feed hnodup]
    exact ⟨item.face, List.mem_map_of_mem (List.mem_of_find?_eq_some hitem),
      (ofTurn_of_face (by cases item <;> rfl)).mpr (hown item hitem)⟩
  by_cases ht : e.turn = []
  · exact hfirst (firstOwn_of_blank ht)
  · cases hc : e.isComplete with
    | false =>
      have hw : e.waits = true := by simp [AgentEvent.waits, hk, hc]
      exact hfirst ((findsOwn_iff hnodup ht).mpr (h.waiting e he hw ht))
    | true =>
      have ha : e.answered = true := by simp [AgentEvent.answered, hk, hc]
      have hshown := fun hs => hno ((hasCard_iff hnodup ht).mpr hs)
      have hnoCard := h.answered e he ha ht hshown
      rw [noCard_iff sets streaming hnodup hk, carded_cardRows hnodup] at hnoCard
      exact hnoCard

theorem rowsOver_le (sets : SetOrder) (streaming : Finset Str) (hnodup : events.Nodup) (he : e ∈ shownRows events) :
    (rowsOver events e).length ≤ (cardRows sets events streaming).length ∧
      (cardRows sets events streaming).take (rowsOver events e).length =
        (rowsOver events e).map (rowOf events) := by
  obtain ⟨rest, hrest⟩ := rowsOver_split hnodup he
  have hcards : cardRows sets events streaming = (rowsOver events e).map (rowOf events) ++
      (((e :: rest).filter (·.kind != .permissionRequest)).map (rowOf events) ++
        running ((walk events).ordered sets streaming)) := by
    rw [cardRows, hrest, List.map_append, List.append_assoc]
  refine ⟨?_, ?_⟩
  · rw [hcards, List.length_append, List.length_map]
    omega
  · rw [hcards, List.take_left' (by simp)]

theorem base_map_permission (l : List AgentEvent) : base (l.map FeedItem.permission) = [] :=
  List.filter_eq_nil_iff.mpr fun item hitem => by
    obtain ⟨e, -, rfl⟩ := List.mem_map.mp hitem
    simp [FeedItem.isPermission]

theorem base_map_face (items : List FeedItem) :
    base (items.map FeedItem.face) = (base items).map FeedItem.face := by
  rw [← filter_lifted_all, ← filter_lifted_all, map_face_filter]

theorem face_eq_permission {item : FeedItem} (h : item.face = .permission e) : item = .permission e := by
  cases item <;> simp_all [FeedItem.face]

theorem map_face_eq_permissions {items : List FeedItem} {l : List AgentEvent}
    (h : items.map FeedItem.face = l.map FeedItem.permission) : items = l.map FeedItem.permission := by
  induction items generalizing l with
  | nil =>
    cases l with
    | nil => rfl
    | cons e l => cases h
  | cons item items ih =>
    cases l with
    | nil => cases h
    | cons e l =>
      obtain ⟨hitem, hrest⟩ := List.cons.inj h
      rw [face_eq_permission hitem, ih hrest]
      rfl

/-- A request without a card keeps its place. -/
theorem kept_of_woven {place : Nat} {asked : List AgentEvent} {feed : List FeedItem}
    (hnodup : events.Nodup) (hk : e.kind = .permissionRequest) (he : e ∈ events)
    (hasked : e ∈ asked) (hno : carded (cardRows sets events streaming) e = false)
    (hplace : (rowsOver events e).length = place)
    (hfeed : feed.map FeedItem.face = Gaps.weave FeedItem.permission (cardRows sets events streaming)
      (gaps (cardRows sets events streaming) place asked)) :
    ∃ A D, feed = A ++ .permission e :: D ∧
      (base A).map FeedItem.face = (rowsOver events e).map (rowOf events) := by
  have hrows : ∀ x ∈ cardRows sets events streaming, x.isPermission = false := by
    intro x hx
    rw [← base_facesBefore] at hx
    simpa using (List.mem_filter.mp hx).2
  obtain ⟨hle, htake⟩ := rowsOver_le sets streaming hnodup
    (mem_shownRows_of_request he hk)
  obtain ⟨before, after, haround⟩ := exists_around hrows
    (gaps (cardRows sets events streaming) place asked) hle
  have hmem : e ∈ gaps (cardRows sets events streaming) place asked (rowsOver events e).length := by
    unfold gaps
    rw [if_pos hplace]
    exact List.mem_append_left _ (List.mem_reverse.mpr (List.mem_filter.mpr ⟨hasked, by simp [hno]⟩))
  obtain ⟨X, Y, hXY⟩ := List.append_of_mem hmem
  rw [haround.eq _ fun _ _ => rfl, hXY, List.map_append, List.map_cons, List.append_assoc,
    ← List.append_assoc] at hfeed
  obtain ⟨A, rest, rfl, hA, hrest⟩ := List.map_eq_append_iff.mp hfeed
  obtain ⟨item, D, rfl, hitem, -⟩ := List.map_eq_cons_iff.mp hrest
  refine ⟨A, D, by rw [face_eq_permission hitem], ?_⟩
  rw [← base_map_face, hA, base_append, base_map_permission, List.append_nil, ← htake]
  exact haround.filter

/-- A waiting request with a card stands under it. -/
theorem under_of_woven {place i : Nat} {asked : List AgentEvent} {feed : List FeedItem} {card : FeedItem}
    (hfind : (cardRows sets events streaming).findIdx? (anchors e) = some i) (hasked : e ∈ asked)
    (hcard : (base feed)[i]? = some card)
    (hempty : i + 1 = place → ∀ d ∈ asked, carded (cardRows sets events streaming) d = true)
    (hfeed : feed.map FeedItem.face = Gaps.weave FeedItem.permission (cardRows sets events streaming)
      (gaps (cardRows sets events streaming) place asked)) :
    ∃ A B D, feed = A ++ card :: ((B ++ [e]).map .permission ++ D) ∧ (B ++ [e]) <+: asked.filter fun q =>
      (cardRows sets events streaming).findIdx? (anchors q) == some i := by
  have hrows : ∀ x ∈ cardRows sets events streaming, x.isPermission = false := by
    intro x hx
    rw [← base_facesBefore] at hx
    simpa using (List.mem_filter.mp hx).2
  have hlt := (List.findIdx?_eq_some_iff_getElem.mp hfind).1
  have hle : i + 1 ≤ (cardRows sets events streaming).length := hlt
  obtain ⟨before, after, haround⟩ := exists_around hrows
    (gaps (cardRows sets events streaming) place asked) hle
  -- Only the requests of the card stand under it.
  have hgap : gaps (cardRows sets events streaming) place asked (i + 1) =
      asked.filter fun q => (cardRows sets events streaming).findIdx? (anchors q) == some i := by
    have hnone : (if i + 1 = place then
        (asked.filter (!carded (cardRows sets events streaming) ·)).reverse else []) = [] := by
      split_ifs with hi
      · rw [List.reverse_eq_nil_iff, List.filter_eq_nil_iff]
        intro d hd
        simp [hempty hi d hd]
      · rfl
    unfold gaps
    rw [hnone, List.nil_append]
    refine List.filter_congr fun q _ => ?_
    cases (cardRows sets events streaming).findIdx? (anchors q) with
    | none => rfl
    | some j => simp
  have hmem : e ∈ asked.filter fun q =>
      (cardRows sets events streaming).findIdx? (anchors q) == some i :=
    List.mem_filter.mpr ⟨hasked, by simp [hfind]⟩
  obtain ⟨B, B', hB⟩ := List.append_of_mem hmem
  obtain ⟨front, hfront⟩ : ∃ front, before = front ++ [(cardRows sets events streaming)[i]] := by
    have hlast := haround.last (Nat.succ_ne_zero i)
    rw [Nat.add_sub_cancel, List.getElem?_eq_getElem hlt, List.getLast?_eq_some_iff] at hlast
    exact hlast
  have hbaseFront : (base front).length = i := by
    have hfilter := congrArg List.length haround.filter
    rw [hfront, List.filter_append, List.filter_singleton, hrows _ (List.getElem_mem hlt)] at hfilter
    have hcount : (base front).length + 1 = i + 1 := by
      simpa [base, Nat.min_eq_left (Nat.succ_le_of_lt hlt)] using hfilter
    omega
  rw [haround.eq _ fun _ _ => rfl, hgap, hB, hfront, List.append_assoc] at hfeed
  obtain ⟨A, rest, rfl, hA, hrest⟩ := List.map_eq_append_iff.mp hfeed
  obtain ⟨card', rest', rfl, hcard', hrest'⟩ := List.map_eq_cons_iff.mp hrest
  have hunder : rest'.map FeedItem.face =
      (B ++ [e]).map FeedItem.permission ++ (B'.map FeedItem.permission ++ after) := by
    simpa using hrest'
  obtain ⟨P, D, rfl, hP, -⟩ := List.map_eq_append_iff.mp hunder
  have hsame : card' = card := by
    have hkeep : card'.isPermission = false := by
      rw [← isPermission_face, hcard']
      exact hrows _ (List.getElem_mem hlt)
    have hbaseA : (base A).length = i := by
      rw [← hbaseFront, ← hA, base_map_face, List.length_map]
    rw [base_append, List.getElem?_append_right hbaseA.le, hbaseA, Nat.sub_self, base,
      List.filter_cons_of_pos (by simp [hkeep])] at hcard
    exact Option.some.inj hcard
  refine ⟨A, B, D, ?_, ?_⟩
  · rw [hsame, map_face_eq_permissions hP]
  · rw [hB]
    exact ⟨B', by simp⟩

end Follows

/-- The feed follows the conversation where the requests keep their places. -/
theorem inOrder_of_keepsPlaces (sets : SetOrder) (events : List AgentEvent) (streaming : Finset Str)
    (hids : (events.map (·.id)).Nodup) (h : KeepsPlaces events streaming) :
    InOrder events (buildFeedItems sets events streaming) := by
  have hnodup : events.Nodup := List.Nodup.of_map _ hids
  -- The requests without a card have one place.
  obtain ⟨place, hplace⟩ : ∃ place, ∀ e ∈ events, NoCard events streaming e →
      (rowsOver events e).length = place := by
    by_cases hany : ∃ d ∈ events, NoCard events streaming d
    · obtain ⟨d, hd, hdno⟩ := hany
      exact ⟨_, fun e he heno => h.together e he d hd heno hdno⟩
    · exact ⟨0, fun e he heno => absurd ⟨e, he, heno⟩ hany⟩
  have habove (d e) (hd : d.waits = true) (he : NoCard events streaming e)
      (hde : [d, e].Sublist events) (x) (hx : (bubbles events).find? (fits events d) = some x) :
      place ≤ (rowsOver events x).length + 1 := by
    rw [← hplace e (hde.subset (List.mem_cons_of_mem _ List.mem_cons_self)) he]
    exact h.above d e hd he hde x hx
  obtain ⟨asked, hperm, hsub, hfeed⟩ := feed_woven sets hnodup hplace habove
  obtain ⟨order, horder, hbase, -, -⟩ := feed_spec sets streaming hnodup
  have hcards : cardRows sets events streaming =
      (base ((walk events).withTrailing sets streaming)).map FeedItem.face := (faces_base hnodup).symm
  have hfind (q : AgentEvent) : (cardRows sets events streaming).findIdx? (anchors q) =
      (base ((walk events).withTrailing sets streaming)).findIdx? (anchors q) := by
    rw [hcards]
    exact turnAnchor_face
  have hasked {q : AgentEvent} (hq : q ∈ asked) : (q ∈ events ∧ q.kind = .permissionRequest) ∧
      answeredUnder ((walk events).withTrailing sets streaming) q = false := by
    obtain ⟨hmem, hrow⟩ := List.mem_filter.mp (hperm.mem_iff.mp hq)
    exact ⟨by simpa using hmem, by simpa using hrow⟩
  refine ⟨(running_iff hids).mpr h.began, fun card hcard e he hw ht => ?_, fun e he hk hno => ?_⟩
  · have hk : e.kind = .permissionRequest := beq_iff_eq.mp (Bool.and_eq_true_iff.mp hw).1
    have hec : e.isComplete = false := by simpa using (Bool.and_eq_true_iff.mp hw).2
    have hcardBase : card ∈ base (buildFeedItems sets events streaming) := by
      refine List.mem_filter.mpr ⟨hcard, ?_⟩
      cases card <;> first | rfl | cases he
    have hruntime {q : AgentEvent} (hq : q ∈ card.runtime) : q ∈ card.events := by
      cases card <;> first | exact List.mem_append_left _ hq | exact hq
    obtain ⟨i, item, hget, hitem, hface, hevents⟩ := mem_base hbase hcardBase
    have hnot {q : AgentEvent} (hq : q.kind = .permissionRequest) : q ∉ item.events :=
      not_mem_events_base hnodup hq (List.mem_of_getElem? hitem)
    have htaken := ((hevents e).mp (hruntime he)).resolve_left (hnot hk)
    obtain ⟨heorder, hi⟩ := List.mem_filter.mp htaken
    rw [beq_iff_eq] at hi
    obtain ⟨heev, -⟩ := (horder e).mp heorder
    have hown : card.OfTurn events e := by
      have hfirst : FirstOwn sets events streaming e :=
        (findsOwn_iff hnodup ht).mpr (h.waiting e heev hw ht)
      refine (ofTurn_of_face hface).mpr (hfirst item ?_)
      rw [← (FirstMatch.getElem?_of_findIdx? hi).1, hitem]
    have heasked : e ∈ asked := by
      rw [hperm.mem_iff]
      simp [heev, hk, answeredUnder, hec]
    -- No request without a card is put back right under this card.
    have hempty : i + 1 = place → ∀ d ∈ asked, carded (cardRows sets events streaming) d = true := by
      intro hip d hd
      obtain ⟨⟨hdev, hdk⟩, -⟩ := hasked hd
      by_contra hdno
      rw [Bool.not_eq_true] at hdno
      have hdnoCard := (noCard_iff sets streaming hnodup hdk).mpr hdno
      have hdplace := hplace d hdev hdnoCard
      rcases findIdx?_cards hnodup ((hfind e).trans hi) with ⟨x, hx, rfl⟩ | ⟨-, hle⟩
      · exact h.below e heev d hdev hw ht hdnoCard x hx (hip.trans hdplace.symm)
      · obtain ⟨rest, hrest⟩ := rowsOver_split hnodup (mem_shownRows_of_request hdev hdk)
        rw [hrest, List.length_append] at hle
        omega
    obtain ⟨A, B, D, heq, hpre⟩ :=
      under_of_woven ((hfind e).trans hi) heasked hget hempty hfeed
    refine ⟨hown, A, B, D, heq, fun q hq => ?_, ?_⟩
    · obtain ⟨hqasked, hqi⟩ := List.mem_filter.mp (hpre.subset (List.mem_append_left _ hq))
      obtain ⟨⟨hqev, hqk⟩, -⟩ := hasked hqasked
      refine mem_runtime hface ((hevents q).mpr (.inr (List.mem_filter.mpr ⟨?_, ?_⟩))) (hnot hqk)
      · exact (horder q).mpr ⟨hqev, hqk⟩
      · rw [← hfind]
        exact hqi
    · have hwait : (asked.filter fun q =>
          (cardRows sets events streaming).findIdx? (anchors q) == some i).Sublist
          (asked.filter (!·.isComplete)) := by
        have hboth : (asked.filter fun q =>
            (cardRows sets events streaming).findIdx? (anchors q) == some i) =
            (asked.filter (!·.isComplete)).filter fun q =>
              (cardRows sets events streaming).findIdx? (anchors q) == some i := by
          rw [List.filter_filter]
          refine List.filter_congr fun q hq => ?_
          cases hqi : (cardRows sets events streaming).findIdx? (anchors q) == some i with
          | false => rfl
          | true =>
            have hrow := (hasked hq).2
            rw [answeredUnder, ← carded_cardRows hnodup, (modify_turnAnchor (beq_iff_eq.mp hqi)).2,
              Bool.and_true] at hrow
            simp [hrow]
        rw [hboth]
        exact List.filter_sublist
      exact (hpre.sublist.trans hwait).trans hsub
  · have hnoCard := noCard_of_not_hasCard hnodup h he hk hno
    have hnone := (noCard_iff sets streaming hnodup hk).mp hnoCard
    refine kept_of_woven hnodup hk he ?_ hnone (hplace e he hnoCard) hfeed
    rw [carded_cardRows hnodup] at hnone
    rw [hperm.mem_iff]
    simp [he, hk, answeredUnder, hnone]

/-- An agent asks in the turn of its reply. -/
theorem inOrder_reply :
    InOrder [eventOf "e1" "output" "a" "T1" true, eventOf "e2" "permission_request" "a" "T1" false]
      (buildFeedItems sortedSets
        [eventOf "e1" "output" "a" "T1" true, eventOf "e2" "permission_request" "a" "T1" false] ∅) := by
  have hbubbles : bubbles
      [eventOf "e1" "output" "a" "T1" true, eventOf "e2" "permission_request" "a" "T1" false] =
      [eventOf "e1" "output" "a" "T1" true] := by decide
  have hfits : fits
      [eventOf "e1" "output" "a" "T1" true, eventOf "e2" "permission_request" "a" "T1" false]
      (eventOf "e2" "permission_request" "a" "T1" false) (eventOf "e1" "output" "a" "T1" true) = true := by
    decide
  have hopen (a) : openTurn
      [eventOf "e1" "output" "a" "T1" true, eventOf "e2" "permission_request" "a" "T1" false] a = [] := by
    refine List.eq_nil_iff_forall_not_mem.mpr fun x hx => ?_
    obtain ⟨hmem, -, hr⟩ := mem_openTurn hx
    rcases List.mem_pair.mp hmem with rfl | rfl <;> exact absurd hr (by decide)
  -- The request has a card.
  have hcard (e) (he : NoCard
      [eventOf "e1" "output" "a" "T1" true, eventOf "e2" "permission_request" "a" "T1" false] ∅ e)
      (hmem : e ∈
        [eventOf "e1" "output" "a" "T1" true, eventOf "e2" "permission_request" "a" "T1" false]) :
      False := by
    rcases List.mem_pair.mp hmem with rfl | rfl
    · exact absurd he.1 (by decide)
    · have hno := he.2.2 _ (hbubbles ▸ List.mem_cons_self)
      rw [hfits] at hno
      cases hno
  refine inOrder_of_keepsPlaces sortedSets _ ∅ (by decide)
    ⟨fun a b x y hx => ?_, fun e he hw _ => ?_, fun e he ha _ _ => ?_,
      fun d hd e he hdno => (hcard d hdno hd).elim, fun d hd e he _ _ hno => (hcard e hno he).elim,
      fun d e _ hno hde => (hcard e hno (hde.subset (List.mem_cons_of_mem _ List.mem_cons_self))).elim⟩
  · rw [hopen] at hx
    cases hx
  · rcases List.mem_pair.mp he with rfl | rfl
    · exact absurd hw (by decide)
    · refine ⟨fun x hx => ?_, fun hno => ?_⟩
      · rw [hbubbles, List.find?_cons_of_pos hfits] at hx
        obtain rfl := Option.some.inj hx
        decide
      · rw [hbubbles] at hno
        exact absurd (hno _ List.mem_cons_self) (by simp [hfits])
  · rcases List.mem_pair.mp he with rfl | rfl <;> exact absurd ha (by decide)

/-- Two agents think; the one that began last has the smaller id, so its card comes first. -/
theorem cards_by_id :
    ¬ InOrder [eventOf "e2" "thinking" "a" "T1" false, eventOf "e1" "thinking" "b" "T2" false]
      (buildFeedItems sortedSets
        [eventOf "e2" "thinking" "a" "T1" false, eventOf "e1" "thinking" "b" "T2" false] ∅) := by
  intro h
  have hlt := (running_iff (by decide)).mp h.running "a".toList "b".toList
    (eventOf "e2" "thinking" "a" "T1" false) (eventOf "e1" "thinking" "b" "T2" false) (by decide)
    (by decide) (List.Sublist.refl _)
  exact absurd hlt (by decide)

end TeamClu.Feed
