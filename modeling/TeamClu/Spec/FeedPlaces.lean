import TeamClu.Spec.FeedConserved

/-!
# Where the permission requests go

Without the runtime events the two passes only insert rows.  A pass over the answered requests puts those that
find no card back; the other pass weaves all that are left into the rows.  The indices were taken before anything
was put back, so this gives the old places only if all requests without a card are between the same two rows, and
none of them comes after a request that goes under an earlier card.

Key results:

* `foldl_placeRow`: the rows after the second pass
* `AnsweredBack.foldl`: the rows after the first pass
-/

namespace TeamClu.Feed

/-! ## The passes without runtime events -/

/-- `placePending` for rows without runtime events. -/
def placeRow (rows : List FeedItem) (entry : AgentEvent × Nat) : List FeedItem :=
  match turnAnchor entry.1 rows with
  | none => putBack rows entry.1 entry.2
  | some anchor => rows.insertIdx (runEnd rows (anchor + 1)) (.permission entry.1)

section Faces

variable {items : List FeedItem} {e : AgentEvent} {n : Nat}

theorem turnAnchor_face : turnAnchor e (items.map FeedItem.face) = turnAnchor e items := by
  unfold turnAnchor
  rw [List.findIdx?_map]
  exact congrArg (List.findIdx? · items) (funext fun _ => anchors_face)

theorem map_face_putBack :
    (putBack items e n).map FeedItem.face = putBack (items.map FeedItem.face) e n := by
  unfold putBack
  rw [List.map_insertIdx, List.length_map]
  rfl

theorem runEnd_face (t : Nat) : runEnd (items.map FeedItem.face) t = runEnd items t := by
  unfold runEnd
  have hface : FeedItem.isPermission ∘ FeedItem.face = FeedItem.isPermission :=
    funext fun _ => isPermission_face
  rw [← List.map_drop, List.takeWhile_map, List.length_map, hface]

theorem face_placeAnswered : (placeAnswered items (e, n)).map FeedItem.face =
    if carded items e then items.map FeedItem.face else putBack (items.map FeedItem.face) e n := by
  unfold placeAnswered
  cases hanchor : turnAnchor e items with
  | none =>
    rw [turnAnchor_eq_none.mp hanchor]
    exact map_face_putBack
  | some i =>
    obtain ⟨hmodify, hc⟩ := modify_turnAnchor hanchor
    simp only [hmodify, hc, ↓reduceIte, faces_takeUp]

theorem face_placePending : (placePending items (e, n)).map FeedItem.face =
    placeRow (items.map FeedItem.face) (e, n) := by
  unfold placePending placeRow
  rw [turnAnchor_face]
  cases hanchor : turnAnchor e items with
  | none => exact map_face_putBack
  | some i =>
    obtain ⟨hmodify, -⟩ := modify_turnAnchor hanchor
    simp only [hmodify]
    rw [List.map_insertIdx, ← runEnd_face, faces_takeUp]
    rfl

theorem foldl_placePending_face (entries : List (AgentEvent × Nat)) (items : List FeedItem) :
    (entries.foldl placePending items).map FeedItem.face =
      entries.foldl placeRow (items.map FeedItem.face) := by
  induction entries generalizing items with
  | nil => rfl
  | cons entry entries ih => rw [List.foldl_cons, ih, face_placePending, List.foldl_cons]

theorem face_face {item : FeedItem} : item.face.face = item.face := by cases item <;> rfl

theorem carded_face : carded (items.map FeedItem.face) e = carded items e := by
  refine carded_eq_of_faces ?_ e
  rw [List.map_map]
  exact List.map_congr_left fun _ _ => face_face

/-- The answered requests that find a card have no row. -/
theorem foldl_placeAnswered_face (entries : List (AgentEvent × Nat)) (items : List FeedItem) :
    (entries.foldl placeAnswered items).map FeedItem.face =
      (entries.filter fun entry => !carded items entry.1).foldl
        (fun rows entry => putBack rows entry.1 entry.2) (items.map FeedItem.face) := by
  induction entries generalizing items with
  | nil => rfl
  | cons entry entries ih =>
    obtain ⟨e, n⟩ := entry
    have hcarded : carded (placeAnswered items (e, n)) = carded items :=
      funext placeAnswered_places.carded
    rw [List.foldl_cons, ih, face_placeAnswered, hcarded]
    cases hc : carded items e <;> simp [hc]

theorem liftEntries_face (lifts : AgentEvent → Bool) (n : Nat) (items : List FeedItem) :
    liftEntries lifts n (items.map FeedItem.face) = liftEntries lifts n items := by
  induction items generalizing n with
  | nil => rfl
  | cons item items ih =>
    cases item with
    | permission e =>
      show (if lifts e then (e, n) :: liftEntries lifts n (items.map FeedItem.face)
        else liftEntries lifts (n + 1) (items.map FeedItem.face)) = _
      rw [ih, ih]
      rfl
    | _ => exact ih _

end Faces

/-! ## The second pass -/

section Pending

variable {rows : List FeedItem} {place : Nat} {e : AgentEvent}

/-- Where the requests go: those without a card between the same two rows, the others under their cards. -/
def gaps (rows : List FeedItem) (place : Nat) (done : List AgentEvent) (j : Nat) : List AgentEvent :=
  (if j = place then (done.filter (!carded rows ·)).reverse else []) ++
    done.filter fun e => (rows.findIdx? (anchors e)).map (· + 1) == some j

theorem findIdx?_eq_none_of_not_carded (h : carded rows e = false) : rows.findIdx? (anchors e) = none :=
  turnAnchor_eq_none.mpr h

theorem gaps_snoc_of_not_carded (h : carded rows e = false) (done : List AgentEvent) (j : Nat) :
    gaps rows place (done ++ [e]) j =
      if j = place then e :: gaps rows place done j else gaps rows place done j := by
  unfold gaps
  rw [List.filter_append, List.filter_append, List.filter_singleton, List.filter_singleton,
    findIdx?_eq_none_of_not_carded h, h]
  split_ifs <;> simp

theorem gaps_snoc_of_carded {i : Nat} (h : rows.findIdx? (anchors e) = some i) (done : List AgentEvent)
    (j : Nat) : gaps rows place (done ++ [e]) j =
      if j = i + 1 then gaps rows place done j ++ [e] else gaps rows place done j := by
  have hc : carded rows e = true := (modify_turnAnchor h).2
  unfold gaps
  rw [List.filter_append, List.filter_append, List.filter_singleton, List.filter_singleton, h, hc]
  by_cases hj : j = i + 1
  · subst hj
    simp
  · have hne : (some (i + 1) == some j) = false :=
      beq_false_of_ne fun heq => hj (Option.some.inj heq).symm
    simp only [Option.map_some, hne, cond_false, List.append_nil, Bool.not_true, hj, ↓reduceIte]

/-- The row of a card and where the requests under it end. -/
private theorem placeRow_around {i : Nat} (hrows : ∀ x ∈ rows, x.isPermission = false)
    (hfind : rows.findIdx? (anchors e) = some i) {g : Nat → List AgentEvent}
    {before after : List FeedItem}
    (h : Gaps.Around (!·.isPermission) FeedItem.permission rows g (i + 1) before after) (n : Nat) :
    placeRow (Gaps.weave FeedItem.permission rows g) (e, n) =
      before ++ ((g (i + 1) ++ [e]).map FeedItem.permission ++ after) := by
  obtain ⟨hlt, hanchor, hfirst⟩ := List.findIdx?_eq_some_iff_getElem.mp hfind
  have hlast := h.last (Nat.succ_ne_zero i)
  rw [Nat.add_sub_cancel, List.getElem?_eq_getElem hlt, List.getLast?_eq_some_iff] at hlast
  obtain ⟨front, hbefore⟩ := hlast
  -- No row in front of the card fits.
  have hfront : ∀ x ∈ front, anchors e x = false := by
    intro x hx
    by_contra hne
    rw [Bool.not_eq_false] at hne
    have hfilter := h.filter
    rw [hbefore, List.filter_append, List.filter_singleton, hrows _ (List.getElem_mem hlt),
      List.take_succ_eq_append_getElem hlt] at hfilter
    have hcancel := List.append_cancel_right hfilter
    have hmem : x ∈ rows.take i := by
      rw [← hcancel]
      exact List.mem_filter.mpr ⟨hx, by rw [isPermission_of_anchors hne]; rfl⟩
    obtain ⟨j, hj, hxj⟩ := List.getElem_of_mem hmem
    rw [List.length_take] at hj
    rw [List.getElem_take] at hxj
    exact hfirst j (by omega) (hxj ▸ hne)
  have heq := h.eq g fun _ _ => rfl
  have hanchorIdx : turnAnchor e (Gaps.weave FeedItem.permission rows g) = some front.length := by
    unfold turnAnchor
    rw [heq, hbefore, List.append_assoc, List.findIdx?_append,
      List.findIdx?_eq_none_iff.mpr hfront, Option.none_or]
    simp [List.findIdx?_cons, hanchor]
  unfold placeRow
  simp only [hanchorIdx]
  -- The requests under the card end at the next row.
  have hlen : before.length = front.length + 1 := by rw [hbefore]; simp
  have hrun : runEnd (Gaps.weave FeedItem.permission rows g) (front.length + 1) =
      before.length + (g (i + 1)).length := by
    unfold runEnd
    rw [heq, ← hlen, List.drop_left, List.takeWhile_append_of_pos]
    · cases hafter : after with
      | nil => simp
      | cons x after =>
        have hx := h.head x (by simp [hafter])
        rw [List.takeWhile_cons_of_neg (by simpa using hx)]
        simp
    · rintro x hx
      obtain ⟨b, -, rfl⟩ := List.mem_map.mp hx
      rfl
  rw [hrun, Gaps.insertIdx_eq (by rw [heq]; simp), heq, List.map_append, List.map_singleton]
  rw [← List.append_assoc before, List.take_left', List.drop_left']
  · simp
  · simp
  · simp

/-- The requests without a card are put back between the same two rows, after no request under an earlier card. -/
structure PlacesAgree (rows : List FeedItem) (place : Nat) (entries : List (AgentEvent × Nat)) :
    Prop where
  same : ∀ entry ∈ entries, carded rows entry.1 = false → entry.2 = place ∧ place ≤ rows.length
  above : entries.Pairwise fun entry entry' => ∀ i, rows.findIdx? (anchors entry.1) = some i →
    carded rows entry'.1 = false → place ≤ i + 1

/-- What surrounds the requests of a gap. -/
theorem exists_around (hrows : ∀ x ∈ rows, x.isPermission = false) (g : Nat → List AgentEvent) {i : Nat}
    (hi : i ≤ rows.length) : ∃ before after,
      Gaps.Around (!·.isPermission) FeedItem.permission rows g i before after :=
  Gaps.exists_around (fun x hx => by rw [hrows x hx]; rfl) (fun _ => rfl) hi

theorem carded_weave (hrows : ∀ x ∈ rows, x.isPermission = false) (g : Nat → List AgentEvent) :
    carded (Gaps.weave FeedItem.permission rows g) e = carded rows e := by
  have hbase : base (Gaps.weave FeedItem.permission rows g) = rows :=
    Gaps.filter_weave (fun x hx => by simp [hrows x hx]) fun _ => rfl
  rw [← carded_base, hbase]

/-- The second pass weaves the requests into the rows. -/
theorem foldl_placeRow (hrows : ∀ x ∈ rows, x.isPermission = false)
    {entries : List (AgentEvent × Nat)} (h : PlacesAgree rows place entries) :
    entries.foldl placeRow rows =
      Gaps.weave FeedItem.permission rows (gaps rows place (entries.map (·.1))) := by
  induction entries using List.reverseRecOn with
  | nil =>
    have hnone : gaps rows place [] = fun _ => [] := by
      funext j
      unfold gaps
      split_ifs <;> rfl
    rw [List.map_nil, hnone, Gaps.weave_nil]
    rfl
  | append_singleton entries entry ih =>
    obtain ⟨e, n⟩ := entry
    obtain ⟨hentries, -, habove⟩ := List.pairwise_append.mp h.above
    have hprev := ih ⟨fun entry hentry => h.same entry (List.mem_append_left _ hentry), hentries⟩
    rw [List.foldl_append, hprev, List.map_append, List.map_singleton, List.foldl_cons, List.foldl_nil]
    cases hc : carded rows e with
    | false =>
      obtain ⟨hn, hle⟩ : n = place ∧ place ≤ rows.length := h.same (e, n) (by simp) hc
      obtain ⟨before, after, haround⟩ := exists_around hrows (gaps rows place (entries.map (·.1))) hle
      -- No request is in a gap before.
      have hstart : before = rows.take place := by
        refine haround.start fun j hj => ?_
        unfold gaps
        rw [if_neg (Nat.ne_of_lt hj), List.nil_append, List.filter_eq_nil_iff]
        intro d hd hmatch
        obtain ⟨entry', hentry', rfl⟩ := List.mem_map.mp hd
        obtain ⟨i, hi, hij⟩ := Option.map_eq_some_iff.mp (beq_iff_eq.mp hmatch)
        have hplace := habove entry' hentry' (e, n) (by simp) i hi hc
        omega
      have hlen : before.length = place := by rw [hstart, List.length_take]; omega
      have heq := haround.eq _ fun _ _ => rfl
      have hanchor : turnAnchor e (Gaps.weave FeedItem.permission rows
          (gaps rows place (entries.map (·.1)))) = none := by
        rw [turnAnchor_eq_none, carded_weave hrows, hc]
      unfold placeRow putBack
      simp only [hanchor]
      rw [haround.eq (gaps rows place (entries.map (·.1) ++ [e])) ?_, gaps_snoc_of_not_carded hc,
        if_pos rfl, heq, Gaps.insertIdx_eq (Nat.min_le_right _ _), Nat.min_eq_left (by simp; omega), hn,
        List.take_left' hlen, List.drop_left' hlen]
      · rfl
      · intro j hj
        rw [gaps_snoc_of_not_carded hc, if_neg hj]
    | true =>
      have hsome : (rows.findIdx? (anchors e)).isSome := by
        rw [List.findIdx?_isSome]
        exact hc
      obtain ⟨i, hi⟩ := Option.isSome_iff_exists.mp hsome
      have hlt := (List.findIdx?_eq_some_iff_getElem.mp hi).1
      obtain ⟨before, after, haround⟩ := exists_around hrows (gaps rows place (entries.map (·.1)))
        (Nat.succ_le_of_lt hlt)
      rw [placeRow_around hrows hi haround, haround.eq (gaps rows place (entries.map (·.1) ++ [e])) ?_]
      · rw [gaps_snoc_of_carded hi, if_pos rfl]
      · intro j hj
        rw [gaps_snoc_of_carded hi, if_neg hj]

end Pending

/-! ## The first pass -/

section AnsweredPass

variable {rows L A B : List FeedItem} {place n : Nat} {a e : AgentEvent}

/-- Each entry of a lift has the number of the rows kept before it. -/
theorem mem_liftEntries {lifts : AgentEvent → Bool} {m : Nat} : (e, n) ∈ liftEntries lifts m rows ↔
    ∃ A B, rows = A ++ .permission e :: B ∧ lifts e = true ∧
      n = m + (A.filter (!·.lifted lifts)).length := by
  induction rows generalizing m with
  | nil => simp [liftEntries]
  | cons item rows ih =>
    have hother (hitem : item.lifted lifts = false) (hne : lifts e = true → item ≠ .permission e) :
        (e, n) ∈ liftEntries lifts (m + 1) rows ↔ ∃ A B, item :: rows = A ++ .permission e :: B ∧
          lifts e = true ∧ n = m + (A.filter (!·.lifted lifts)).length := by
      rw [ih]
      constructor
      · rintro ⟨A, B, rfl, he, rfl⟩
        refine ⟨item :: A, B, rfl, he, ?_⟩
        rw [List.filter_cons_of_pos (by simp [hitem]), List.length_cons]
        omega
      · rintro ⟨A, B, hrows, he, rfl⟩
        cases A with
        | nil => exact absurd (List.cons.inj hrows).1 (hne he)
        | cons item' A =>
          obtain ⟨rfl, hrest⟩ := List.cons.inj hrows
          refine ⟨A, B, hrest, he, ?_⟩
          rw [List.filter_cons_of_pos (by simp [hitem]), List.length_cons]
          omega
    cases item with
    | permission d =>
      cases hd : lifts d with
      | false =>
        have hstep : liftEntries lifts m (.permission d :: rows) = liftEntries lifts (m + 1) rows := by
          simp [liftEntries, hd]
        rw [hstep]
        refine hother (by simp [FeedItem.lifted, FeedItem.request?, hd]) fun he heq => ?_
        rw [FeedItem.permission.inj heq, he] at hd
        cases hd
      | true =>
        have hstep : liftEntries lifts m (.permission d :: rows) = (d, m) :: liftEntries lifts m rows := by
          simp [liftEntries, hd]
        rw [hstep, List.mem_cons, ih]
        have hlifted : (FeedItem.permission d).lifted lifts = true := hd
        constructor
        · rintro (heq | ⟨A, B, rfl, he, rfl⟩)
          · obtain ⟨rfl, rfl⟩ := Prod.mk.inj heq
            exact ⟨[], rows, rfl, hd, rfl⟩
          · refine ⟨.permission d :: A, B, rfl, he, ?_⟩
            rw [List.filter_cons_of_neg (by simp [hlifted])]
        · rintro ⟨A, B, hrows, he, rfl⟩
          cases A with
          | nil =>
            obtain ⟨hde, -⟩ := List.cons.inj hrows
            exact .inl (by rw [FeedItem.permission.inj hde]; rfl)
          | cons item' A =>
            obtain ⟨rfl, hrest⟩ := List.cons.inj hrows
            refine .inr ⟨A, B, hrest, he, ?_⟩
            rw [List.filter_cons_of_neg (by simp [hlifted])]
    | _ => exact hother rfl fun _ => by simp

theorem base_append : base (A ++ B) = base A ++ base B := List.filter_append ..

theorem requests_append : requests (A ++ B) = requests A ++ requests B := List.filterMap_append ..

/-- The rows while the answered requests without a card are put back. -/
structure AnsweredBack (rows : List FeedItem) (place : Nat) (L : List FeedItem) : Prop where
  kept : L.filter (!·.lifted (·.isComplete)) = rows.filter (!·.lifted (·.isComplete))
  place : ∀ A a B, L = A ++ .permission a :: B → a.isComplete = true → (base A).length = place
  order : ∀ A a B, L = A ++ .permission a :: B → a.isComplete = true → ∀ d ∈ requests A,
    d.isComplete = false → [d, a].Sublist (requests rows)

/-- One more answered request is put back. -/
theorem AnsweredBack.putBack (h : AnsweredBack rows place L) (hrows : rows = A ++ .permission a :: B)
    (ha : a.isComplete = true) (hplace : (base A).length = place) :
    AnsweredBack rows place (putBack L a (A.filter (!·.lifted (·.isComplete))).length) := by
  have hlifted : (FeedItem.permission a).lifted (·.isComplete) = true := ha
  have hkeptrows : rows.filter (!·.lifted (·.isComplete)) =
      A.filter (!·.lifted (·.isComplete)) ++ B.filter (!·.lifted (·.isComplete)) := by
    rw [hrows, List.filter_append, List.filter_cons_of_neg (by simp [hlifted])]
  have hle : (A.filter (!·.lifted (·.isComplete))).length ≤ L.length := by
    have hsub := (List.filter_sublist (p := (!·.lifted (·.isComplete))) (l := L)).length_le
    rw [h.kept, hkeptrows, List.length_append] at hsub
    omega
  obtain ⟨X, Y, hL, hX⟩ : ∃ X Y, L = X ++ Y ∧ X.length = (A.filter (!·.lifted (·.isComplete))).length :=
    ⟨_, _, (List.take_append_drop _ L).symm, by rw [List.length_take, Nat.min_eq_left hle]⟩
  have hput : TeamClu.Feed.putBack L a (A.filter (!·.lifted (·.isComplete))).length =
      X ++ .permission a :: Y := by
    unfold TeamClu.Feed.putBack
    rw [Gaps.insertIdx_eq (Nat.min_le_right _ _), Nat.min_eq_left hle, ← hX, hL, List.take_left,
      List.drop_left]
  -- What was kept before the new row was kept before it at first.
  have hpre : X.filter (!·.lifted (·.isComplete)) <+: A.filter (!·.lifted (·.isComplete)) := by
    have hall : X.filter (!·.lifted (·.isComplete)) ++ Y.filter (!·.lifted (·.isComplete)) =
        A.filter (!·.lifted (·.isComplete)) ++ B.filter (!·.lifted (·.isComplete)) := by
      rw [← List.filter_append, ← hL, h.kept, hkeptrows]
    refine List.prefix_of_prefix_length_le ⟨_, hall⟩ (List.prefix_append _ _) ?_
    exact hX ▸ List.length_filter_le _ _
  have hbaseX : (base X).length = place := by
    have hle' : (base X).length ≤ (base A).length := by
      rw [← base_filter_lifted (·.isComplete) X, ← base_filter_lifted (·.isComplete) A]
      exact (hpre.filter _).length_le
    by_cases hans : ∃ y ∈ requests X, y.isComplete = true
    · obtain ⟨y, hy, hyc⟩ := hans
      obtain ⟨P, Q, hPQ⟩ := List.append_of_mem (mem_requests.mp hy)
      have hP := h.place P y (Q ++ Y) (by rw [hL, hPQ]; simp) hyc
      have hsplit : (base X).length = (base P).length + (base (.permission y :: Q)).length := by
        rw [hPQ, base_append, List.length_append]
      omega
    · -- Nothing answered was put in front of it yet.
      have hself : X.filter (!·.lifted (·.isComplete)) = X := by
        refine List.filter_eq_self.mpr fun item hitem => ?_
        cases item with
        | permission y =>
          have hyc : y.isComplete = false := by
            by_contra hne
            exact hans ⟨y, mem_requests.mpr hitem, by simpa using hne⟩
          simp [FeedItem.lifted, FeedItem.request?, hyc]
        | _ => rfl
      have hwhole := hpre.eq_of_length (by rw [hself, hX])
      rw [hself] at hwhole
      rw [hwhole, base_filter_lifted, hplace]
  have horderX : ∀ d ∈ requests X, d.isComplete = false → [d, a].Sublist (requests rows) := by
    intro d hd hdc
    have hmem : FeedItem.permission d ∈ X.filter (!·.lifted (·.isComplete)) :=
      List.mem_filter.mpr ⟨mem_requests.mp hd, by simp [FeedItem.lifted, FeedItem.request?, hdc]⟩
    have hdA : d ∈ requests A := mem_requests.mpr (List.mem_of_mem_filter (hpre.subset hmem))
    rw [hrows, requests_append]
    have hone := List.singleton_sublist.mpr hdA
    have htwo : [a].Sublist (requests (.permission a :: B)) :=
      List.singleton_sublist.mpr (mem_requests.mpr List.mem_cons_self)
    exact hone.append htwo
  rw [hput]
  -- A split of the new rows is at the new row, behind it or in front of it.
  have hsplit (A' B' : List FeedItem) (x : AgentEvent) (heq : X ++ .permission a :: Y = A' ++ .permission x :: B') :
      (A' = X ∧ x = a) ∨ (∃ A₁ A₂, A' = A₁ ++ .permission a :: A₂ ∧ L = A₁ ++ A₂ ++ .permission x :: B') ∨
        ∃ B₁, L = A' ++ .permission x :: B₁ := by
    rcases List.append_eq_append_iff.mp heq with ⟨Z, hA', hrest⟩ | ⟨Z, hXZ, hrest⟩
    · cases Z with
      | nil =>
        obtain ⟨hax, -⟩ := List.cons.inj hrest
        exact .inl ⟨by simpa using hA', (FeedItem.permission.inj hax).symm⟩
      | cons z Z =>
        obtain ⟨hz, hY⟩ := List.cons.inj hrest
        exact .inr (.inl ⟨X, Z, by rw [hA', hz], by rw [hL, hY]; simp⟩)
    · cases Z with
      | nil =>
        obtain ⟨hax, -⟩ := List.cons.inj hrest
        exact .inl ⟨by simpa using hXZ.symm, FeedItem.permission.inj hax⟩
      | cons z Z =>
        obtain ⟨hz, -⟩ := List.cons.inj hrest
        exact .inr (.inr ⟨Z ++ Y, by rw [hL, hXZ, ← hz]; simp⟩)
  refine ⟨?_, fun A' x B' heq hx => ?_, fun A' x B' heq hx d hd hdc => ?_⟩
  · rw [List.filter_append, List.filter_cons_of_neg (by simp [hlifted]), ← List.filter_append, ← hL, h.kept]
  · rcases hsplit A' B' x heq with ⟨rfl, -⟩ | ⟨A₁, A₂, rfl, hL'⟩ | ⟨B₁, hL'⟩
    · exact hbaseX
    · have hold := h.place (A₁ ++ A₂) x B' hL' hx
      rw [base_append] at hold ⊢
      exact hold
    · exact h.place A' x B₁ hL' hx
  · rcases hsplit A' B' x heq with ⟨rfl, rfl⟩ | ⟨A₁, A₂, rfl, hL'⟩ | ⟨B₁, hL'⟩
    · exact horderX d hd hdc
    · refine h.order (A₁ ++ A₂) x B' hL' hx d ?_ hdc
      rw [requests_append] at hd ⊢
      rcases List.mem_append.mp hd with hfront | hback
      · exact List.mem_append_left _ hfront
      · rcases List.mem_cons.mp hback with rfl | hback'
        · rw [ha] at hdc
          cases hdc
        · exact List.mem_append_right _ hback'
    · exact h.order A' x B₁ hL' hx d hd hdc

/-- Before the pass no answered request has a row. -/
theorem answeredBack_start :
    AnsweredBack rows place (rows.filter (!·.lifted (·.isComplete))) := by
  have hno {A B : List FeedItem} {a : AgentEvent}
      (heq : rows.filter (!·.lifted (·.isComplete)) = A ++ .permission a :: B)
      (ha : a.isComplete = true) : False := by
    have hmem : FeedItem.permission a ∈ rows.filter (!·.lifted (·.isComplete)) := by
      rw [heq]
      simp
    have hkept := (List.mem_filter.mp hmem).2
    simp [FeedItem.lifted, FeedItem.request?, ha] at hkept
  refine ⟨?_, fun A a B heq ha => (hno heq ha).elim, fun A a B heq ha => (hno heq ha).elim⟩
  rw [List.filter_filter]
  exact List.filter_congr fun _ _ => Bool.and_self _

/-- The rows after the first pass. -/
theorem AnsweredBack.foldl (h : AnsweredBack rows place L) (entries : List (AgentEvent × Nat))
    (hentries : ∀ entry ∈ entries, ∃ A B, rows = A ++ .permission entry.1 :: B ∧
      entry.1.isComplete = true ∧ (base A).length = place ∧
      entry.2 = (A.filter (!·.lifted (·.isComplete))).length) :
    AnsweredBack rows place
      (entries.foldl (fun rows entry => TeamClu.Feed.putBack rows entry.1 entry.2) L) := by
  induction entries generalizing L with
  | nil => exact h
  | cons entry entries ih =>
    obtain ⟨A, B, hrows, ha, hplace, hn⟩ := hentries entry List.mem_cons_self
    rw [List.foldl_cons, hn]
    exact ih (h.putBack hrows ha hplace) fun entry hentry => hentries entry (List.mem_cons_of_mem _ hentry)

end AnsweredPass

end TeamClu.Feed
