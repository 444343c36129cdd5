import TeamClu.Spec.FeedWalk

/-!
# The cards of the chat feed

What the rows are once the running cards are there, in terms of the events: the rows whose turn is not taken up
again, in the order of the events that opened them, and a card for each live agent.

Key results:

* `faces_withTrailing`: the rows before the requests are placed
* `withTrailing_perm`: their events
* `request_row`: a request is in no row but its own
-/

namespace TeamClu.Feed

/-! ## Rows whose turn goes on -/

/-- An agent has a card at the end of the feed. -/
def Live (events : List AgentEvent) (streaming : Finset Str) (agent : Str) : Prop :=
  openTurn events agent ≠ [] ∨ agent ∈ streaming

instance {events : List AgentEvent} {streaming : Finset Str} {agent : Str} :
    Decidable (Live events streaming agent) := inferInstanceAs (Decidable (_ ∨ _))

/-- The key of the open turn of an agent. -/
def openKey (events : List AgentEvent) (agent : Str) : Option Str :=
  turnKey agent (openTurnID events agent)

/-- The row of an event is a bubble whose turn an agent goes on with. -/
def resumed (events : List AgentEvent) (x : AgentEvent) : Bool :=
  x.closes && x.key != none && events.any fun y => openKey events (ownerFor y) == x.key

/-- The events whose rows are shown. -/
def shownRows (events : List AgentEvent) : List AgentEvent :=
  (openers events).filter (!resumed events ·)

/-- No bubble is taken up by two agents. -/
def ResumedOnce (events : List AgentEvent) : Prop :=
  ∀ x ∈ events, x.closes = true → x.key ≠ none → ∀ y ∈ events, ∀ z ∈ events,
    openKey events (ownerFor y) = x.key → openKey events (ownerFor z) = x.key → ownerFor y = ownerFor z

instance {events : List AgentEvent} : Decidable (ResumedOnce events) :=
  inferInstanceAs (Decidable (∀ x ∈ events, _))

/-- The index of the row that the open turn of an agent takes up again. -/
def resumes (events : List AgentEvent) (agent : Str) : Option Nat :=
  (openKey events agent).bind fun key =>
    (openers events).findIdx? fun x => x.closes && x.key == some key

section Trailing

variable {events : List AgentEvent} {w : FeedWalk} {sets : SetOrder} {streaming : Finset Str}
  {agent : Str}

theorem exists_of_openKey {key : Str} (h : openKey events agent = some key) :
    ∃ y ∈ openTurn events agent, openTurnID events agent = some y.turn ∧ y.turn ≠ [] := by
  unfold openKey openTurnID at *
  cases hf : (openTurn events agent).find? (·.turn ≠ []) with
  | none =>
    rw [hf] at h
    cases h
  | some y => exact ⟨y, List.mem_of_find?_eq_some hf, rfl, by simpa using List.find?_some hf⟩

/-- The row that a card takes up again, with its events. -/
theorem Walked.folded (h : Walked events w) (agent : Str) : w.folded agent =
    (resumes events agent).bind fun idx => w.result[idx]?.map fun row => (idx, row.events) := by
  unfold FeedWalk.folded resumes openKey
  rw [h.turn]
  cases openTurnID events agent with
  | none => rfl
  | some t =>
    simp only [Option.bind_eq_bind, Option.bind_some]
    cases turnKey agent (some t) with
    | none => rfl
    | some key =>
      simp only [Option.bind_some]
      rw [h.index]
      cases hidx : (openers events).findIdx? fun x => x.closes && x.key == some key with
      | none => rfl
      | some idx =>
        simp only [Option.bind_some]
        rw [List.findIdx?_eq_some_iff_getElem] at hidx
        obtain ⟨hlt, hmatch, -⟩ := hidx
        rw [Bool.and_eq_true] at hmatch
        have hface := congrArg (·[idx]?) h.rows
        simp only [List.getElem?_map, List.getElem?_eq_getElem hlt, Option.map_some,
          rowOf_closes hmatch.1] at hface
        obtain ⟨row, hrow, hrowface⟩ := Option.map_eq_some_iff.mp hface
        -- The row of the index is a bubble.
        cases row with
        | completedTurn id agentID final runtime => simp [hrow, FeedItem.events]
        | _ => simp [FeedItem.face] at hrowface

theorem Walked.ordered_perm (sets : SetOrder) (streaming : Finset Str) (h : Walked events w) : ∃ agents : List Str,
    (w.ordered sets streaming).Perm agents ∧ agents.Nodup ∧
      ∀ a, a ∈ agents ↔ Live events streaming a := by
  refine ⟨_, List.mergeSort_perm _ _, sets.nodup _, fun a => ?_⟩
  rw [sets.mem, Finset.mem_union, List.mem_toFinset, Std.ExtTreeMap.mem_keys,
    Std.ExtTreeMap.mem_iff_isSome_getElem?, h.opens, Live]
  split_ifs with hnil <;> simp [hnil]

theorem Walked.nodup_ordered (sets : SetOrder) (streaming : Finset Str) (h : Walked events w) : (w.ordered sets streaming).Nodup := by
  obtain ⟨agents, hperm, hnodup, -⟩ := h.ordered_perm sets streaming
  exact hperm.nodup_iff.mpr hnodup

/-- The running cards are those of the live agents. -/
theorem Walked.mem_ordered (sets : SetOrder) (streaming : Finset Str) (h : Walked events w)
    (a : Str) :
    a ∈ w.ordered sets streaming ↔ Live events streaming a := by
  obtain ⟨agents, hperm, -, hmem⟩ := h.ordered_perm sets streaming
  rw [hperm.mem_iff, hmem]

/-- A row is taken up again if some agent goes on with its turn. -/
theorem exists_resumes_iff (hnodup : events.Nodup) {i : Nat} {x : AgentEvent}
    (hx : (openers events)[i]? = some x) :
    (∃ a, resumes events a = some i) ↔ resumed events x = true := by
  have hlt : i < (openers events).length := (List.getElem?_eq_some_iff.mp hx).1
  have hxmem : x ∈ openers events := List.mem_of_getElem? hx
  unfold resumes resumed
  constructor
  · rintro ⟨a, ha⟩
    obtain ⟨key, hkey, hidx⟩ := Option.bind_eq_some_iff.mp ha
    rw [List.findIdx?_eq_some_iff_getElem] at hidx
    obtain ⟨_, hmatch, -⟩ := hidx
    rw [(List.getElem?_eq_some_iff.mp hx).2, Bool.and_eq_true, beq_iff_eq] at hmatch
    obtain ⟨y, hy, -, -⟩ := exists_of_openKey hkey
    obtain ⟨hyev, hyo, -⟩ := mem_openTurn hy
    simp only [hmatch.1, hmatch.2, Bool.true_and, Bool.and_eq_true, List.any_eq_true, beq_iff_eq]
    exact ⟨by simp, y, hyev, by rw [hyo, hkey]⟩
  · intro hres
    simp only [Bool.and_eq_true, bne_iff_ne, List.any_eq_true, beq_iff_eq] at hres
    obtain ⟨⟨hxc, hxk⟩, y, -, hkey⟩ := hres
    obtain ⟨k, hk⟩ := Option.ne_none_iff_exists'.mp hxk
    refine ⟨ownerFor y, ?_⟩
    rw [hkey, hk, Option.bind_some, List.findIdx?_eq_some_iff_getElem]
    refine ⟨hlt, by simp [(List.getElem?_eq_some_iff.mp hx).2, hxc, hk], fun j hj hmatch => ?_⟩
    -- An earlier row of the turn would be the same one.
    have hjlt : j < (openers events).length := hj.trans hlt
    rw [Bool.and_eq_true, beq_iff_eq] at hmatch
    have heq := opener_unique (List.getElem_mem hjlt) hxmem hmatch.1 hxc
      (hmatch.2.trans hk.symm) (by simp [hmatch.2])
    have hij : j = i := by
      refine (List.getElem?_inj hjlt (hnodup.filter _)).mp ?_
      rw [List.getElem?_eq_getElem hjlt, heq, hx]
    omega

/-- An agent that takes up a row is live. -/
theorem live_of_resumes {i : Nat} (h : resumes events agent = some i) :
    Live events streaming agent := by
  obtain ⟨key, hkey, -⟩ := Option.bind_eq_some_iff.mp h
  obtain ⟨y, hy, -, -⟩ := exists_of_openKey hkey
  exact .inl (List.ne_nil_of_mem hy)

/-- The rows that the running cards take up again. -/
theorem Walked.foldedIndices (h : Walked events w) (agent : Str) :
    (w.folded agent).map (·.1) = resumes events agent := by
  rw [h.folded]
  cases hidx : resumes events agent with
  | none => rfl
  | some idx =>
    obtain ⟨key, -, hfind⟩ := Option.bind_eq_some_iff.mp hidx
    rw [List.findIdx?_eq_some_iff_getElem] at hfind
    have hlt : idx < w.result.length := h.length ▸ hfind.1
    simp [List.getElem?_eq_getElem hlt]

/-- The rows before the requests are placed: those not taken up again, and the running cards. -/
theorem Walked.withTrailing_eq (h : Walked events w) : w.withTrailing sets streaming =
    FirstMatch.takeOut ((w.ordered sets streaming).filterMap (resumes events)) w.result ++
      (w.ordered sets streaming).map w.trailing := by
  have hfolded : (fun a => (w.folded a).map (·.1)) = resumes events := funext h.foldedIndices
  show FirstMatch.takeOut ((w.ordered sets streaming).filterMap fun a => (w.folded a).map (·.1)) _ ++ _ = _
  rw [hfolded]

/-- The rows in front of the running cards. -/
theorem Walked.faces_takeOut (h : Walked events w) (hnodup : events.Nodup) :
    (FirstMatch.takeOut ((w.ordered sets streaming).filterMap (resumes events)) w.result).map
      FeedItem.face = (shownRows events).map (rowOf events) := by
  refine FirstMatch.map_takeOut h.rows fun i x hx => ?_
  rw [← exists_resumes_iff hnodup hx, List.mem_filterMap]
  constructor
  · rintro ⟨a, -, ha⟩
    exact ⟨a, ha⟩
  · rintro ⟨a, ha⟩
    exact ⟨a, (h.mem_ordered sets streaming a).mpr (live_of_resumes ha), ha⟩

/-- The rows before the requests are placed. -/
theorem Walked.faces_withTrailing (sets : SetOrder) (streaming : Finset Str) (h : Walked events w)
    (hnodup : events.Nodup) :
    (w.withTrailing sets streaming).map FeedItem.face = (shownRows events).map (rowOf events) ++
      (w.ordered sets streaming).map fun a => .activeStream ("stream-".toList ++ a) a [] := by
  rw [h.withTrailing_eq, List.map_append, h.faces_takeOut hnodup, List.map_map]
  rfl

/-- The events of a running card. -/
theorem Walked.events_trailing (h : Walked events w) (agent : Str) :
    (w.trailing agent).events = (((resumes events agent).bind (w.result[·]?)).map
      FeedItem.events).getD [] ++ openTurn events agent := by
  unfold FeedWalk.trailing
  rw [FeedItem.events, h.getD_opens, h.folded]
  congr 1
  cases resumes events agent with
  | none => rfl
  | some idx => cases hrow : w.result[idx]? <;> simp [hrow]

private theorem flatMap_getD {α β γ δ : Type} (r : α → Option β) (g : β → Option γ) (f : γ → List δ)
    (l : List α) : ((l.filterMap r).filterMap g).flatMap f =
      l.flatMap fun a => (((r a).bind g).map f).getD [] := by
  induction l with
  | nil => rfl
  | cons a l ih =>
    cases hr : r a with
    | none => simpa [hr] using ih
    | some b => cases hg : g b <;> simpa [hr, hg] using ih

/-- The open turns hold an event as often as its agent's does. -/
theorem Walked.count_open (h : Walked events w) (x : AgentEvent) :
    ((w.ordered sets streaming).flatMap (openTurn events)).count x =
      (openTurn events (ownerFor x)).count x := by
  have hother (l : List Str) (hl : ownerFor x ∉ l) : (l.flatMap (openTurn events)).count x = 0 := by
    refine List.count_eq_zero.mpr fun hmem => hl ?_
    obtain ⟨a, ha, hx⟩ := List.mem_flatMap.mp hmem
    exact (mem_openTurn hx).2.1 ▸ ha
  by_cases hmem : ownerFor x ∈ w.ordered sets streaming
  · rw [((List.perm_cons_erase hmem).flatMap_right _).count_eq, List.flatMap_cons, List.count_append,
      hother _ ((h.nodup_ordered sets streaming).not_mem_erase), Nat.add_zero]
  · have hnil : openTurn events (ownerFor x) = [] := by
      by_contra hne
      exact hmem ((h.mem_ordered sets streaming _).mpr (.inl hne))
    rw [hother _ hmem, hnil, List.count_nil]

/-- The rows before the requests are placed hold every event once, if no bubble is taken up twice. -/
theorem Walked.withTrailing_perm (h : Walked events w) (honce : ResumedOnce events) :
    ((w.withTrailing sets streaming).flatMap FeedItem.events).Perm events := by
  have hinj (a b i) (ha : resumes events a = some i) (hb : resumes events b = some i) : a = b := by
    obtain ⟨k, hk, hidx⟩ := Option.bind_eq_some_iff.mp ha
    obtain ⟨k', hk', hidx'⟩ := Option.bind_eq_some_iff.mp hb
    rw [List.findIdx?_eq_some_iff_getElem] at hidx hidx'
    obtain ⟨hlt, hmatch, -⟩ := hidx
    obtain ⟨_, hmatch', -⟩ := hidx'
    rw [Bool.and_eq_true, beq_iff_eq] at hmatch hmatch'
    obtain ⟨y, hy, -, -⟩ := exists_of_openKey hk
    obtain ⟨z, hz, -, -⟩ := exists_of_openKey hk'
    obtain ⟨hyev, hyo, -⟩ := mem_openTurn hy
    obtain ⟨hzev, hzo, -⟩ := mem_openTurn hz
    have heq := honce _ (List.mem_filter.mp (List.getElem_mem hlt)).1 hmatch.1 (by simp [hmatch.2])
      y hyev z hzev (by rw [hyo, hk, hmatch.2]) (by rw [hzo, hk', hmatch'.2])
    rw [← hyo, ← hzo, heq]
  have hindices : ((w.ordered sets streaming).filterMap (resumes events)).Nodup :=
    List.Nodup.filterMap (fun a b i ha hb => hinj a b i ha hb) (h.nodup_ordered sets streaming)
  have hout := (FirstMatch.takeOut_perm (l := w.result) hindices).flatMap_right FeedItem.events
  rw [List.flatMap_append] at hout
  have hcards : (((w.ordered sets streaming).map w.trailing).flatMap FeedItem.events).Perm
      ((((w.ordered sets streaming).filterMap (resumes events)).filterMap (w.result[·]?)).flatMap
        FeedItem.events ++ (w.ordered sets streaming).flatMap (openTurn events)) := by
    rw [List.flatMap_map, flatMap_getD, List.flatMap_congr fun a _ => h.events_trailing a]
    exact (List.flatMap_append_perm _ _ _).symm
  refine List.perm_iff_count.mpr fun x => ?_
  have hresult := hout.count_eq x
  have htrailing := hcards.count_eq x
  rw [h.withTrailing_eq, List.flatMap_append, List.count_append, htrailing, List.count_append,
    h.count_open, ← h.counts x, ← hresult, List.count_append, Nat.add_assoc]

private theorem two_le_count_flatMap {α β : Type} [DecidableEq α] [BEq β] [LawfulBEq β] {l : List α}
    {f : α → List β} {a b : α} {x : β} (ha : a ∈ l) (hb : b ∈ l) (hne : a ≠ b) (hxa : x ∈ f a)
    (hxb : x ∈ f b) : 2 ≤ (l.flatMap f).count x := by
  have hb' : b ∈ l.erase a := (List.mem_erase_of_ne (Ne.symm hne)).mpr hb
  rw [((List.perm_cons_erase ha).flatMap_right f).count_eq, List.flatMap_cons, List.count_append]
  have h1 := List.count_pos_iff.mpr hxa
  have h2 := List.count_pos_iff.mpr (List.mem_flatMap.mpr ⟨b, hb', hxb⟩)
  omega

theorem closes_bubbleEnd {x : AgentEvent} (hx : x ∈ events) (hc : x.closes = true) :
    (bubbleEnd events x).closes = true ∧ bubbleEnd events x ∈ events := by
  unfold bubbleEnd
  split_ifs with hkey
  · exact ⟨hc, hx⟩
  · cases hlast : (events.filter fun y => y.closes && y.key == x.key).getLast? with
    | none => exact ⟨hc, hx⟩
    | some y =>
      obtain ⟨hy, hmatch⟩ := List.mem_filter.mp (List.mem_of_getLast? hlast)
      rw [Bool.and_eq_true] at hmatch
      exact ⟨hmatch.1, hy⟩

/-- A bubble that two agents take up again is shown twice. -/
theorem Walked.count_of_not_resumedOnce (sets : SetOrder) (streaming : Finset Str) 
    (h : Walked events w) (hnodup : events.Nodup) (honce : ¬ ResumedOnce events) : ∃ x ∈ events, x.closes = true ∧
      2 ≤ ((w.withTrailing sets streaming).flatMap FeedItem.events).count x := by
  unfold ResumedOnce at honce
  push Not at honce
  obtain ⟨x, hx, hc, hkey, y, hy, z, hz, hyk, hzk, hne⟩ := honce
  obtain ⟨u, hu, huc, huk, -⟩ := exists_opener hx hc
  obtain ⟨i, hi, hui⟩ := List.getElem_of_mem hu
  obtain ⟨k, hk⟩ := Option.ne_none_iff_exists'.mp hkey
  have hui' : (openers events)[i]? = some u := by rw [List.getElem?_eq_getElem hi, hui]
  -- Both agents take up the row of the turn.
  have hresumes (v) (hvk : openKey events (ownerFor v) = x.key) :
      resumes events (ownerFor v) = some i := by
    have hfound : ((openers events).findIdx? fun o => o.closes && o.key == some k).isSome := by
      rw [List.findIdx?_isSome, List.any_eq_true]
      exact ⟨u, hu, by simp [huc, huk, hk]⟩
    obtain ⟨j, hj⟩ := Option.isSome_iff_exists.mp hfound
    have hres : resumes events (ownerFor v) = some j := by
      rw [resumes, hvk, hk, Option.bind_some, hj]
    rw [List.findIdx?_eq_some_iff_getElem] at hj
    obtain ⟨hjlt, hmatch, -⟩ := hj
    rw [Bool.and_eq_true, beq_iff_eq] at hmatch
    have heq := opener_unique (List.getElem_mem hjlt) hu hmatch.1 huc
      (hmatch.2.trans (hk.symm.trans huk.symm)) (by simp [hmatch.2])
    have hij : j = i := by
      refine (List.getElem?_inj hjlt (hnodup.filter _)).mp ?_
      rw [List.getElem?_eq_getElem hjlt, heq, hui']
    rw [hres, hij]
  have hface := congrArg (·[i]?) h.rows
  simp only [List.getElem?_map, hui', Option.map_some, rowOf_closes huc] at hface
  obtain ⟨row, hrow, hrowface⟩ := Option.map_eq_some_iff.mp hface
  have hfinal : bubbleEnd events u ∈ row.events := by
    cases row with
    | completedTurn id agentID final runtime =>
      simp only [FeedItem.face, FeedItem.completedTurn.injEq] at hrowface
      simp [FeedItem.events, hrowface.2.2.1]
    | _ => simp [FeedItem.face] at hrowface
  obtain ⟨hend, hendmem⟩ := closes_bubbleEnd (List.mem_filter.mp hu).1 huc
  refine ⟨bubbleEnd events u, hendmem, hend, ?_⟩
  have hcard (v) (hvk : openKey events (ownerFor v) = x.key) :
      w.trailing (ownerFor v) ∈ w.withTrailing sets streaming ∧
        bubbleEnd events u ∈ (w.trailing (ownerFor v)).events := by
    refine ⟨?_, ?_⟩
    · rw [h.withTrailing_eq]
      refine List.mem_append_right _ (List.mem_map_of_mem ?_)
      exact (h.mem_ordered sets streaming _).mpr (live_of_resumes (hresumes v hvk))
    · rw [h.events_trailing, hresumes v hvk, Option.bind_some, hrow]
      exact List.mem_append_left _ hfinal
  refine two_le_count_flatMap (hcard y hyk).1 (hcard z hzk).1 (fun heq => hne ?_) (hcard y hyk).2
    (hcard z hzk).2
  exact (FeedItem.activeStream.inj heq).2.1

/-- A request is in no row but its own. -/
theorem Walked.request_row (h : Walked events w) (hnodup : events.Nodup) {e : AgentEvent}
    (hk : e.kind = .permissionRequest) {row : FeedItem} (hrow : row ∈ w.withTrailing sets streaming)
    (he : e ∈ row.events) : row = .permission e := by
  have hresult (r) (hr : r ∈ w.result) (her : e ∈ r.events) : r = .permission e := by
    have hpos := List.count_pos_iff.mpr (List.mem_flatMap.mpr ⟨r, hr, her⟩)
    have hle : (w.result.flatMap FeedItem.events).count e ≤ 1 :=
      (Nat.le_add_right _ _).trans ((h.counts e).trans_le (List.nodup_iff_count_le_one.mp hnodup e))
    have hmem : e ∈ events := by
      have hcount := h.counts e
      exact List.count_pos_iff.mp (by omega)
    have hopener : e ∈ openers events := by
      refine List.mem_filter.mpr ⟨hmem, ?_⟩
      simp [opensRow, AgentEvent.closes, AgentEvent.records, hk]
    have hface : FeedItem.permission e ∈ w.result.map FeedItem.face := by
      rw [h.rows]
      refine List.mem_map.mpr ⟨e, hopener, ?_⟩
      simp [rowOf, hk]
    obtain ⟨own, hown, hownface⟩ := List.mem_map.mp hface
    have hself : own = .permission e := by
      cases own <;> simp_all [FeedItem.face]
    subst hself
    by_contra hne
    have htwo := two_le_count_flatMap hr hown hne her (by simp [FeedItem.events])
    omega
  rw [h.withTrailing_eq] at hrow
  rcases List.mem_append.mp hrow with hkept | hcard
  · refine hresult row ?_ he
    obtain ⟨entry, hentry, rfl⟩ := List.mem_map.mp hkept
    exact List.fst_mem_of_mem_zipIdx (List.mem_of_mem_filter hentry)
  · obtain ⟨a, -, rfl⟩ := List.mem_map.mp hcard
    rw [h.events_trailing] at he
    rcases List.mem_append.mp he with hfold | hopen
    · -- What is taken up again is a bubble.
      exfalso
      cases hres : resumes events a with
      | none => simp [hres] at hfold
      | some i =>
        cases hget : w.result[i]? with
        | none => simp [hres, hget] at hfold
        | some r =>
          have her : e ∈ r.events := by simpa [hres, hget] using hfold
          have hperm := hresult r (List.mem_of_getElem? hget) her
          obtain ⟨key, -, hidx⟩ := Option.bind_eq_some_iff.mp hres
          rw [List.findIdx?_eq_some_iff_getElem] at hidx
          obtain ⟨hlt, hmatch, -⟩ := hidx
          rw [Bool.and_eq_true] at hmatch
          have hface := congrArg (·[i]?) h.rows
          simp [hget, hperm, hlt, rowOf_closes hmatch.1, FeedItem.face] at hface
    · have hrec := (mem_openTurn hopen).2.2
      simp [AgentEvent.records, hk] at hrec

end Trailing

end TeamClu.Feed
