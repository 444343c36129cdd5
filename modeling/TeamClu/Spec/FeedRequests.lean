import TeamClu.ForStd.Gaps
import TeamClu.Spec.FeedCards

/-!
# The permission requests of the chat feed

The two passes lift the requests out and put them back.  The other rows stay in their order; a card only takes up
the requests that find it first.  An answered request that finds a card has no row, every other request has one.

Key results:

* `placed_spec`: the rows, the requests and the events of the feed, from the rows before
* `mem_base`, `exists_card`: which requests a card holds
-/

namespace TeamClu.Feed

/-- The request of a row. -/
def FeedItem.request? : FeedItem → Option AgentEvent
  | permission e => some e
  | _ => none

/-- The rows that are no requests. -/
def base (items : List FeedItem) : List FeedItem := items.filter (!·.isPermission)

/-- The requests that have a row. -/
def requests (items : List FeedItem) : List AgentEvent := items.filterMap FeedItem.request?

/-- A request finds a card. -/
def carded (items : List FeedItem) (e : AgentEvent) : Bool := items.any (anchors e)

/-- The rows once a request is in the card that it finds first. -/
def takeUp (items : List FeedItem) (e : AgentEvent) : List FeedItem :=
  FirstMatch.modifyFirst (anchors e) (FeedItem.addRuntime e) items

section Rows

variable {items : List FeedItem} {item : FeedItem} {e d : AgentEvent}

theorem anchors_face : anchors e item.face = anchors e item := by
  cases item <;> rfl

theorem anchors_addRuntime : anchors e (item.addRuntime d) = anchors e item := by
  cases item <;> rfl

theorem face_addRuntime : (item.addRuntime d).face = item.face := by
  cases item <;> rfl

theorem isPermission_addRuntime : (item.addRuntime d).isPermission = item.isPermission := by
  cases item <;> rfl

theorem request?_addRuntime : (item.addRuntime d).request? = item.request? := by
  cases item <;> rfl

theorem isPermission_of_anchors (h : anchors e item = true) : item.isPermission = false := by
  cases item <;> first | rfl | cases h

/-- The events of a card with one more runtime event. -/
theorem events_addRuntime (h : anchors e item = true) (d : AgentEvent) :
    (item.addRuntime d).events.Perm (item.events ++ [d]) := by
  cases item with
  | completedTurn id agentID final runtime =>
    simp only [FeedItem.addRuntime, FeedItem.events, List.append_assoc]
    exact List.perm_append_comm.append_left _
  | activeStream => exact List.Perm.refl _
  | _ => cases h

theorem carded_eq_of_faces {items' : List FeedItem}
    (h : items.map FeedItem.face = items'.map FeedItem.face) (e : AgentEvent) :
    carded items e = carded items' e := by
  have hface (l : List FeedItem) : carded l e = (l.map FeedItem.face).any (anchors e) := by
    rw [List.any_map]
    exact congrArg (l.any ·) (funext fun _ => anchors_face.symm)
  rw [hface, hface, h]

/-- Only the rows that are no requests are found. -/
theorem carded_base : carded (base items) e = carded items e := by
  unfold carded base
  rw [List.any_filter]
  refine congrArg (items.any ·) (funext fun item => ?_)
  cases hi : anchors e item with
  | false => simp
  | true => simp [isPermission_of_anchors hi]

theorem faces_takeUp : (takeUp items e).map FeedItem.face = items.map FeedItem.face :=
  FirstMatch.map_modifyFirst fun _ => face_addRuntime

theorem base_takeUp : base (takeUp items e) = takeUp (base items) e :=
  FirstMatch.filter_modifyFirst (fun _ h => by simp [isPermission_of_anchors h])
    fun _ => by rw [isPermission_addRuntime]

theorem requests_takeUp : requests (takeUp items e) = requests items := by
  have hmap (l : List FeedItem) : requests l = (l.map FeedItem.request?).filterMap id := by
    rw [List.filterMap_map]
    rfl
  rw [hmap, hmap]
  exact congrArg _ (FirstMatch.map_modifyFirst fun _ => request?_addRuntime)

theorem takeUp_of_not_carded (h : carded items e = false) : takeUp items e = items :=
  FirstMatch.modifyFirst_of_none fun item hi => by
    unfold carded at h
    rw [List.any_eq_false] at h
    simpa using h item hi

/-- A request that finds a card is in it once. -/
theorem events_takeUp (items : List FeedItem) (e : AgentEvent) : ((takeUp items e).flatMap FeedItem.events).Perm
    (items.flatMap FeedItem.events ++ if carded items e then [e] else []) := by
  cases hc : carded items e with
  | false => simp [takeUp_of_not_carded hc]
  | true =>
    exact FirstMatch.flatMap_modifyFirst (fun _ h => events_addRuntime h e) (List.any_eq_true.mp hc)

/-- The search for a card and the change of it. -/
theorem turnAnchor_eq_none : turnAnchor e items = none ↔ carded items e = false := by
  unfold turnAnchor carded
  rw [List.findIdx?_eq_none_iff, List.any_eq_false]
  simp

theorem modify_turnAnchor {i : Nat} (h : turnAnchor e items = some i) :
    items.modify i (FeedItem.addRuntime e) = takeUp items e ∧ carded items e = true := by
  refine ⟨FirstMatch.modify_of_findIdx? h, ?_⟩
  by_contra hc
  rw [Bool.not_eq_true] at hc
  rw [turnAnchor_eq_none.mpr hc] at h
  cases h

end Rows

/-! ## One request -/

section Place

variable {items : List FeedItem} {e : AgentEvent} {n : Nat}

private theorem base_insertIdx {i : Nat} (hi : i ≤ items.length) :
    base (items.insertIdx i (.permission e)) = base items := Gaps.filter_insertIdx hi rfl

private theorem requests_insertIdx {i : Nat} (hi : i ≤ items.length) :
    (requests (items.insertIdx i (.permission e))).Perm (e :: requests items) :=
  (List.perm_insertIdx _ _ hi).filterMap _

private theorem events_insertIdx {i : Nat} (hi : i ≤ items.length) :
    ((items.insertIdx i (.permission e)).flatMap FeedItem.events).Perm
      (items.flatMap FeedItem.events ++ [e]) :=
  ((List.perm_insertIdx _ _ hi).flatMap_right _).trans (@List.perm_append_comm _ [e] _)

/-- What a request put into its card, if any, and a row for it, if any, make of the feed. -/
structure Places (items : List FeedItem) (e : AgentEvent) (row : Bool) (items' : List FeedItem) :
    Prop where
  base : base items' = takeUp (base items) e
  requests : (requests items').Perm ((if row then [e] else []) ++ requests items)
  events : (items'.flatMap FeedItem.events).Perm (items.flatMap FeedItem.events ++
    (if carded items e then [e] else []) ++ if row then [e] else [])

theorem placeAnswered_places :
    Places items e (!carded items e) (placeAnswered items (e, n)) := by
  unfold placeAnswered putBack
  cases hanchor : turnAnchor e items with
  | none =>
    have hc := turnAnchor_eq_none.mp hanchor
    have hle : min n items.length ≤ items.length := Nat.min_le_right _ _
    refine ⟨?_, ?_, ?_⟩
    · rw [base_insertIdx hle, takeUp_of_not_carded (carded_base.trans hc)]
    · simpa [hc] using requests_insertIdx hle
    · simpa [hc] using events_insertIdx hle
  | some i =>
    obtain ⟨hmodify, hc⟩ := modify_turnAnchor hanchor
    simp only [hmodify]
    refine ⟨base_takeUp, ?_, ?_⟩
    · simp [hc, requests_takeUp]
    · have hevents := events_takeUp items e
      simpa [hc] using hevents

theorem placePending_places : Places items e true (placePending items (e, n)) := by
  unfold placePending putBack
  cases hanchor : turnAnchor e items with
  | none =>
    have hc := turnAnchor_eq_none.mp hanchor
    have hle : min n items.length ≤ items.length := Nat.min_le_right _ _
    refine ⟨?_, ?_, ?_⟩
    · rw [base_insertIdx hle, takeUp_of_not_carded (carded_base.trans hc)]
    · exact requests_insertIdx hle
    · simpa [hc] using events_insertIdx hle
  | some i =>
    obtain ⟨hmodify, hc⟩ := modify_turnAnchor hanchor
    simp only [hmodify]
    have hi : i < items.length := by
      unfold turnAnchor at hanchor
      rw [List.findIdx?_eq_some_iff_getElem] at hanchor
      exact hanchor.1
    have hle : runEnd (takeUp items e) (i + 1) ≤ (takeUp items e).length := by
      have hlen : (takeUp items e).length = items.length := by
        have hfaces := congrArg List.length (@faces_takeUp items e)
        simpa using hfaces
      have htake := List.takeWhile_prefix (l := (takeUp items e).drop (i + 1)) FeedItem.isPermission
      have htakelen := htake.length_le
      rw [List.length_drop] at htakelen
      unfold runEnd
      omega
    refine ⟨?_, ?_, ?_⟩
    · rw [base_insertIdx hle, base_takeUp]
    · have hreq := requests_insertIdx (e := e) hle
      rw [requests_takeUp] at hreq
      exact hreq
    · have hevents := (events_insertIdx (e := e) hle).trans ((events_takeUp _ _).append_right _)
      simpa [hc] using hevents

/-- Who finds a card does not change. -/
theorem Places.carded {row : Bool} {items' : List FeedItem} (h : Places items e row items')
    (d : AgentEvent) : carded items' d = carded items d := by
  rw [← carded_base, h.base, ← @carded_base items]
  exact carded_eq_of_faces faces_takeUp d

end Place

/-! ## A pass -/

section Pass

variable {place : List FeedItem → AgentEvent × Nat → List FeedItem} {row : Bool → Bool}

/-- What a pass does that puts back one request after the other. -/
theorem foldl_places
    (hplace : ∀ items e n, Places items e (row (carded items e)) (place items (e, n)))
    (entries : List (AgentEvent × Nat)) (items : List FeedItem) :
    base (entries.foldl place items) = (entries.map (·.1)).foldl takeUp (base items) ∧
      (requests (entries.foldl place items)).Perm
        ((entries.map (·.1)).filter (fun e => row (carded items e)) ++ requests items) ∧
      ((entries.foldl place items).flatMap FeedItem.events).Perm (items.flatMap FeedItem.events ++
        (entries.map (·.1)).filter (carded items) ++
        (entries.map (·.1)).filter fun e => row (carded items e)) := by
  induction entries generalizing items with
  | nil => exact ⟨rfl, List.Perm.refl _, by simp⟩
  | cons entry entries ih =>
    obtain ⟨e, n⟩ := entry
    have hone := hplace items e n
    obtain ⟨hbase, hrequests, hevents⟩ := ih (place items (e, n))
    have hcarded : carded (place items (e, n)) = carded items := funext hone.carded
    rw [hcarded] at hrequests hevents
    refine ⟨?_, ?_, ?_⟩
    · rw [List.foldl_cons, hbase, hone.base]
      rfl
    · rw [List.foldl_cons, List.map_cons]
      refine (hrequests.trans (hone.requests.append_left _)).trans ?_
      cases hrow : row (carded items e) with
      | false => simp [hrow]
      | true => simp [hrow, List.perm_middle]
    · rw [List.foldl_cons, List.map_cons]
      refine hevents.trans (List.perm_iff_count.mpr fun x => ?_)
      simp only [List.count_append, hone.events.count_eq, List.filter_cons]
      rcases Bool.eq_false_or_eq_true (row (carded items e)) with hrow | hrow <;> rw [hrow] <;>
        rcases Bool.eq_false_or_eq_true (carded items e) with hc | hc <;> rw [hc] <;>
        simp [List.count_cons] <;> omega

/-- The entries of a lift, and the number of the rows kept before each. -/
def liftEntries (lifts : AgentEvent → Bool) (n : Nat) : List FeedItem → List (AgentEvent × Nat)
  | [] => []
  | .permission e :: items =>
    if lifts e then (e, n) :: liftEntries lifts n items else liftEntries lifts (n + 1) items
  | _ :: items => liftEntries lifts (n + 1) items

/-- The row is lifted out. -/
def FeedItem.lifted (lifts : AgentEvent → Bool) (item : FeedItem) : Bool := item.request?.any lifts

theorem liftOut_eq (lifts : AgentEvent → Bool) (items : List FeedItem) : liftOut lifts items =
    (liftEntries lifts 0 items, items.filter (!·.lifted lifts)) := by
  have hfold (items : List FeedItem) (acc : List (AgentEvent × Nat) × List FeedItem) :
      items.foldl (fun acc item =>
        match item with
        | .permission event =>
          if lifts event then (acc.1 ++ [(event, acc.2.length)], acc.2) else (acc.1, acc.2 ++ [item])
        | _ => (acc.1, acc.2 ++ [item])) acc =
      (acc.1 ++ liftEntries lifts acc.2.length items, acc.2 ++ items.filter (!·.lifted lifts)) := by
    induction items generalizing acc with
    | nil => simp [liftEntries]
    | cons item items ih =>
      rw [List.foldl_cons, ih]
      cases item with
      | permission e =>
        cases he : lifts e <;> simp [liftEntries, FeedItem.lifted, FeedItem.request?, he]
      | _ => simp [liftEntries, FeedItem.lifted, FeedItem.request?]
  exact hfold items ([], [])

theorem map_liftEntries (lifts : AgentEvent → Bool) (n : Nat) (items : List FeedItem) :
    (liftEntries lifts n items).map (·.1) = (requests items).filter lifts := by
  induction items generalizing n with
  | nil => rfl
  | cons item items ih =>
    cases item with
    | permission e =>
      show _ = (e :: requests items).filter lifts
      cases he : lifts e <;> simp [liftEntries, he, ih]
    | _ => exact ih _

theorem base_filter_lifted (lifts : AgentEvent → Bool) (items : List FeedItem) :
    base (items.filter (!·.lifted lifts)) = base items := by
  unfold base
  rw [List.filter_filter]
  refine List.filter_congr fun item _ => ?_
  cases item <;> simp [FeedItem.isPermission, FeedItem.lifted, FeedItem.request?]

theorem requests_filter_lifted (lifts : AgentEvent → Bool) (items : List FeedItem) :
    requests (items.filter (!·.lifted lifts)) = (requests items).filter (!lifts ·) := by
  induction items with
  | nil => rfl
  | cons item items ih =>
    cases item with
    | permission e =>
      show _ = (e :: requests items).filter (!lifts ·)
      have hlifted : (FeedItem.permission e).lifted lifts = lifts e := rfl
      cases he : lifts e with
      | false =>
        rw [List.filter_cons_of_pos (by simp [hlifted, he]), List.filter_cons_of_pos (by simp [he])]
        exact congrArg (e :: ·) ih
      | true =>
        rw [List.filter_cons_of_neg (by simp [hlifted, he]), List.filter_cons_of_neg (by simp [he])]
        exact ih
    | _ => exact ih

/-- What is lifted out and what is kept have the events of the rows. -/
theorem events_filter_lifted (lifts : AgentEvent → Bool) (items : List FeedItem) :
    ((items.filter (!·.lifted lifts)).flatMap FeedItem.events ++ (requests items).filter lifts).Perm
      (items.flatMap FeedItem.events) := by
  induction items with
  | nil => exact List.Perm.refl _
  | cons item items ih =>
    cases item with
    | permission e =>
      show (_ ++ (e :: requests items).filter lifts).Perm (e :: items.flatMap FeedItem.events)
      have hlifted : (FeedItem.permission e).lifted lifts = lifts e := rfl
      cases he : lifts e with
      | false =>
        rw [List.filter_cons_of_pos (by simp [hlifted, he]), List.filter_cons_of_neg (by simp [he])]
        exact ih.cons e
      | true =>
        rw [List.filter_cons_of_neg (by simp [hlifted, he]), List.filter_cons_of_pos he]
        exact List.perm_middle.trans (ih.cons e)
    | _ =>
      rw [List.filter_cons_of_pos rfl, List.flatMap_cons, List.flatMap_cons, List.append_assoc]
      exact ih.append_left _

end Pass

/-! ## Both passes -/

/-- The waiting requests that find a card. -/
def waitsUnder (items : List FeedItem) (e : AgentEvent) : Bool := !e.isComplete && carded items e

/-- The answered requests that find a card. -/
def answeredUnder (items : List FeedItem) (e : AgentEvent) : Bool := e.isComplete && carded items e

section Both

variable {items : List FeedItem}

theorem faces_foldl_takeUp (order : List AgentEvent) (items : List FeedItem) :
    (order.foldl takeUp items).map FeedItem.face = items.map FeedItem.face := by
  induction order generalizing items with
  | nil => rfl
  | cons d order ih => rw [List.foldl_cons, ih, faces_takeUp]

theorem carded_of_base {items' : List FeedItem} {order : List AgentEvent}
    (h : base items' = order.foldl takeUp (base items)) (e : AgentEvent) :
    carded items' e = carded items e := by
  rw [← carded_base, h, ← @carded_base items]
  exact carded_eq_of_faces (faces_foldl_takeUp _ _) e

/-- The pass over the answered requests. -/
theorem foldAnswered_spec (items : List FeedItem) :
    base (foldAnswered items) = ((requests items).filter (·.isComplete)).foldl takeUp (base items) ∧
      (requests (foldAnswered items)).Perm
        ((requests items).filter fun e => !answeredUnder items e) ∧
      ((foldAnswered items).flatMap FeedItem.events).Perm (items.flatMap FeedItem.events) := by
  have hcarded (e) : carded (items.filter (!·.lifted (·.isComplete))) e = carded items e := by
    rw [← carded_base, base_filter_lifted, carded_base]
  obtain ⟨hbase, hrequests, hevents⟩ := @foldl_places _ (! ·)
    (fun _ _ _ => placeAnswered_places) (liftEntries (·.isComplete) 0 items)
    (items.filter (!·.lifted (·.isComplete)))
  have hfold : foldAnswered items = (liftEntries (·.isComplete) 0 items).foldl placeAnswered
      (items.filter (!·.lifted (·.isComplete))) := by
    unfold foldAnswered
    rw [liftOut_eq]
  rw [hfold]
  rw [map_liftEntries] at hbase hrequests hevents
  simp only [hcarded] at hrequests hevents
  refine ⟨?_, ?_, ?_⟩
  · rw [hbase, base_filter_lifted]
  · rw [requests_filter_lifted] at hrequests
    have hsplit := List.filter_append_perm (fun e => e.isComplete)
      ((requests items).filter fun e => !answeredUnder items e)
    have hanswered : (fun e => e.isComplete && !answeredUnder items e) =
        fun e => !carded items e && e.isComplete := by
      funext e
      cases hx : e.isComplete <;> simp [answeredUnder, hx]
    have hwaiting : (fun e => !e.isComplete && !answeredUnder items e) = fun e => !e.isComplete := by
      funext e
      cases hx : e.isComplete <;> simp [answeredUnder, hx]
    rw [List.filter_filter, List.filter_filter, hanswered, hwaiting] at hsplit
    rw [List.filter_filter] at hrequests
    exact hrequests.trans hsplit
  · rw [funext hcarded] at hevents
    refine hevents.trans ((List.perm_iff_count.mpr fun x => ?_).trans
      (events_filter_lifted (·.isComplete) items))
    have hsplit := (List.filter_append_perm (carded items)
      ((requests items).filter (·.isComplete))).count_eq x
    simp only [List.count_append] at hsplit ⊢
    omega

/-- The pass over the other requests. -/
theorem placeRequests_spec (items : List FeedItem) :
    base (placeRequests items) = (requests items).foldl takeUp (base items) ∧
      (requests (placeRequests items)).Perm (requests items) ∧
      ((placeRequests items).flatMap FeedItem.events).Perm
        (items.flatMap FeedItem.events ++ (requests items).filter (carded items)) := by
  have hcarded (e) : carded (items.filter (!·.lifted fun _ => true)) e = carded items e := by
    rw [← carded_base, base_filter_lifted, carded_base]
  obtain ⟨hbase, hrequests, hevents⟩ := @foldl_places _ (fun _ => true)
    (fun _ _ _ => placePending_places) (liftEntries (fun _ => true) 0 items)
    (items.filter (!·.lifted fun _ => true))
  have hfold : placeRequests items = (liftEntries (fun _ => true) 0 items).foldl placePending
      (items.filter (!·.lifted fun _ => true)) := by
    unfold placeRequests
    rw [liftOut_eq]
  have hlifted := events_filter_lifted (fun _ => true) items
  rw [hfold]
  rw [map_liftEntries, List.filter_true] at hbase hrequests hevents
  rw [List.filter_true] at hlifted hrequests hevents
  refine ⟨?_, ?_, ?_⟩
  · rw [hbase, base_filter_lifted]
  · rw [requests_filter_lifted] at hrequests
    simpa using hrequests
  · rw [funext hcarded] at hevents
    refine hevents.trans (List.perm_iff_count.mpr fun x => ?_)
    have hcount := hlifted.count_eq x
    simp only [List.count_append] at hcount ⊢
    omega

/-- The feed, made of the rows before the requests are placed. -/
theorem placed_spec (items : List FeedItem) : ∃ order : List AgentEvent,
    (∀ e, e ∈ order ↔ e ∈ requests items) ∧
      base (placeRequests (foldAnswered items)) = order.foldl takeUp (base items) ∧
      (requests (placeRequests (foldAnswered items))).Perm
        ((requests items).filter fun e => !answeredUnder items e) ∧
      ((placeRequests (foldAnswered items)).flatMap FeedItem.events).Perm
        (items.flatMap FeedItem.events ++ (requests items).filter (waitsUnder items)) := by
  obtain ⟨hbase, hrequests, hevents⟩ := foldAnswered_spec items
  obtain ⟨hbase', hrequests', hevents'⟩ := placeRequests_spec (foldAnswered items)
  have hcarded (e) : carded (foldAnswered items) e = carded items e := carded_of_base hbase e
  refine ⟨(requests items).filter (·.isComplete) ++ requests (foldAnswered items), fun e => ?_, ?_,
    hrequests'.trans hrequests, ?_⟩
  · rw [List.mem_append, hrequests.mem_iff, List.mem_filter, List.mem_filter]
    cases hx : e.isComplete <;> simp [answeredUnder, hx]
    tauto
  · rw [hbase', hbase, List.foldl_append]
  · refine hevents'.trans (hevents.append ?_)
    rw [funext hcarded]
    refine (hrequests.filter _).trans (List.Perm.of_eq ?_)
    rw [List.filter_filter]
    refine List.filter_congr fun e _ => ?_
    cases hx : e.isComplete <;> cases hc : carded items e <;> simp [answeredUnder, waitsUnder, hx, hc]

end Both

/-! ## The cards of the feed -/

section Cards

variable {items feed : List FeedItem} {order : List AgentEvent}

/-- The requests that a card takes up. -/
def takenUp (items : List FeedItem) (order : List AgentEvent) (i : Nat) : List AgentEvent :=
  order.filter fun e => (base items).findIdx? (anchors e) == some i

/-- A row of the feed is a row from before with the requests that found it first. -/
theorem getElem?_base (h : base feed = order.foldl takeUp (base items)) (i : Nat) :
    (base feed)[i]? = (base items)[i]?.map fun item =>
      (takenUp items order i).foldl (fun item e => item.addRuntime e) item := by
  rw [h]
  exact FirstMatch.getElem?_foldl_modifyFirst (fun _ _ _ => anchors_addRuntime) order _ i

theorem face_foldl_addRuntime (taken : List AgentEvent) (item : FeedItem) :
    (taken.foldl (fun item e => item.addRuntime e) item).face = item.face := by
  induction taken generalizing item with
  | nil => rfl
  | cons e taken ih => rw [List.foldl_cons, ih, face_addRuntime]

theorem mem_events_foldl {taken : List AgentEvent} {item : FeedItem}
    (h : ∀ e ∈ taken, anchors e item = true) (d : AgentEvent) :
    d ∈ (taken.foldl (fun item e => item.addRuntime e) item).events ↔ d ∈ item.events ∨ d ∈ taken := by
  induction taken generalizing item with
  | nil => simp
  | cons e taken ih =>
    have hone := events_addRuntime (h e List.mem_cons_self) e
    rw [List.foldl_cons, ih fun c hc => anchors_addRuntime.trans (h c (List.mem_cons_of_mem _ hc)),
      hone.mem_iff, List.mem_append, List.mem_singleton, List.mem_cons, or_assoc]

theorem anchors_of_takenUp {i : Nat} {item : FeedItem} (hitem : (base items)[i]? = some item)
    {e : AgentEvent} (he : e ∈ takenUp items order i) : anchors e item = true := by
  have hfind := (List.mem_filter.mp he).2
  rw [beq_iff_eq, List.findIdx?_eq_some_iff_getElem] at hfind
  obtain ⟨hlt, hanchor, -⟩ := hfind
  rw [List.getElem?_eq_getElem hlt] at hitem
  exact Option.some.inj hitem ▸ hanchor

/-- What a row of the feed holds. -/
theorem mem_base (h : base feed = order.foldl takeUp (base items)) {item' : FeedItem}
    (hitem' : item' ∈ base feed) : ∃ i item, (base feed)[i]? = some item' ∧
      (base items)[i]? = some item ∧ item'.face = item.face ∧
      ∀ d, d ∈ item'.events ↔ d ∈ item.events ∨ d ∈ takenUp items order i := by
  obtain ⟨i, hi⟩ := List.mem_iff_getElem?.mp hitem'
  have hget := hi
  rw [getElem?_base h] at hget
  obtain ⟨item, hitem, rfl⟩ := Option.map_eq_some_iff.mp hget
  exact ⟨i, item, hi, hitem, face_foldl_addRuntime _ _,
    mem_events_foldl fun e he => anchors_of_takenUp hitem he⟩

/-- The card that a request finds first holds it. -/
theorem exists_card (h : base feed = order.foldl takeUp (base items)) {e : AgentEvent} {i : Nat}
    {item : FeedItem} (he : e ∈ order) (hfind : (base items).findIdx? (anchors e) = some i)
    (hitem : (base items)[i]? = some item) :
    ∃ card ∈ base feed, card.face = item.face ∧ e ∈ card.events := by
  have hget := getElem?_base h i
  rw [hitem, Option.map_some] at hget
  refine ⟨_, List.mem_of_getElem? hget, face_foldl_addRuntime _ _, ?_⟩
  rw [mem_events_foldl fun e he => anchors_of_takenUp hitem he]
  exact .inr (List.mem_filter.mpr ⟨he, by simp [hfind]⟩)

/-- A feed is made of its requests and its other rows. -/
theorem perm_base_requests (items : List FeedItem) :
    (base items ++ (requests items).map FeedItem.permission).Perm items := by
  induction items with
  | nil => exact List.Perm.refl _
  | cons item items ih =>
    cases item with
    | permission e => exact List.perm_middle.trans (ih.cons _)
    | _ => exact ih.cons _

theorem mem_of_base {item : FeedItem} (h : item ∈ base items) : item ∈ items :=
  (List.mem_filter.mp h).1

theorem mem_requests {e : AgentEvent} : e ∈ requests items ↔ .permission e ∈ items := by
  unfold requests
  rw [List.mem_filterMap]
  constructor
  · rintro ⟨item, hitem, he⟩
    cases item <;> simp [FeedItem.request?] at he
    exact he ▸ hitem
  · exact fun h => ⟨_, h, rfl⟩

end Cards

end TeamClu.Feed
