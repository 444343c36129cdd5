import TeamClu.Native.Listings

/-!
# Paging shows every row once

The messages of a session are cut at the key of the oldest row of a page, so the pages are the whole session.  The
workspaces are cut at a timestamp alone: rows that share the timestamp of a page's last row and come behind it are
on no page.

## Key results

- `messages_whole`: the pages of a session are its messages
- `workspaces_whole_iff`: the pages of the workspaces are all of them exactly when no page ends between two rows of
  one timestamp
- `paged_whole_iff`: the two listings together
-/

namespace TeamClu.Listings

open Paging

variable {τ ι : Type} [LinearOrder τ] [LinearOrder ι]

/-- Following the cursors ends, and the pages, newest first, are the messages of the session in the order of their
    keys. -/
def MessagesWhole (rows : List (MessageRow τ ι)) (sessionId : Str) (limit : Nat) : Prop :=
  ∃ pages, Paged (getMessages rows sessionId limit) none pages ∧
    pages.reverse.flatten = (newestFirst MessageRow.key (messageQuery rows sessionId none)).reverse

/-- Following the cursors ends, and the pages are the workspaces that match in the order of their keys. -/
def WorkspacesWhole (rows : List (WorkspaceRow τ ι)) (teamId : Str) (limit : Nat) (agentId : Option Str) :
    Prop :=
  ∃ pages, Paged (getWorkspaces rows teamId limit agentId) none pages ∧
    pages.flatten = newestFirst WorkspaceRow.key (workspaceQuery rows teamId agentId none)

/-- No page of a list ends between two rows of one timestamp. -/
def CutsBetweenTimes (limit : Nat) (list : List (WorkspaceRow τ ι)) : Prop :=
  ∀ n, ∀ last ∈ list[(n + 1) * limit - 1]?, ∀ next ∈ list[(n + 1) * limit]?, last.updatedAt ≠ next.updatedAt

/-! ## Messages -/

theorem before_iff (cursor : MessageCursor τ ι) (row : MessageRow τ ι) :
    cursor.before row = true ↔ row.key < toLex (cursor.createdAt, cursor.id) := by
  rw [MessageRow.key, Prod.Lex.toLex_lt_toLex]
  simp [MessageCursor.before]

omit [LinearOrder τ] [LinearOrder ι] in
/-- Rows with different ids have different keys. -/
theorem pairwise_key_messages {rows : List (MessageRow τ ι)} (h : (rows.map (·.id)).Nodup) :
    rows.Pairwise fun a b => a.key ≠ b.key := by
  refine (List.pairwise_map.mp h).imp fun hne heq => hne ?_
  exact congrArg Prod.snd (toLex_inj.mp heq)

/-- A page as the database gives it, newest first. -/
def fetchMessages (rows : List (MessageRow τ ι)) (sessionId : Str) (limit : Nat)
    (c : Option (MessageCursor τ ι)) : List (MessageRow τ ι) × Option (MessageCursor τ ι) :=
  ((getMessages rows sessionId limit c).1.reverse, (getMessages rows sessionId limit c).2)

/-- What a cursor leaves of the session. -/
def MessagesLeft (rows : List (MessageRow τ ι)) (sessionId : Str) (c : Option (MessageCursor τ ι))
    (rest : List (MessageRow τ ι)) : Prop :=
  newestFirst MessageRow.key (messageQuery rows sessionId c) = rest ∧
    rest <:+ newestFirst MessageRow.key (messageQuery rows sessionId none)

/-- A list that is not shorter than a page has a last row of the page. -/
private theorem take_eq_concat {α : Type} {limit : Nat} {rest : List α} (hlimit : 1 ≤ limit)
    (hle : limit ≤ rest.length) : ∃ front row, rest.take limit = front ++ [row] := by
  have hne : rest.take limit ≠ [] := List.ne_nil_of_length_pos (by rw [List.length_take]; omega)
  exact ⟨_, _, (List.dropLast_append_getLast hne).symm⟩

/-- The cursor at a row leaves what is behind it. -/
theorem messagesLeft_cursor {rows : List (MessageRow τ ι)} (front : List (MessageRow τ ι))
    (h : (rows.map (·.id)).Nodup) {sessionId : Str} {rest : List (MessageRow τ ι)} {row : MessageRow τ ι}
    (hsplit : newestFirst MessageRow.key (messageQuery rows sessionId none) = front ++ row :: rest) :
    MessagesLeft rows sessionId (some ⟨row.createdAt, row.id⟩) rest := by
  have hkey := (pairwise_key_messages h).filter (·.sessionId = sessionId)
  have hsorted := pairwise_lt_newestFirst hkey
  have hcut : messageQuery rows sessionId (some ⟨row.createdAt, row.id⟩) =
      (messageQuery rows sessionId none).filter (·.key < row.key) := by
    refine List.filter_congr fun other _ => ?_
    rw [Bool.eq_iff_iff, before_iff, decide_eq_true_eq]
    rfl
  unfold MessagesLeft
  rw [hcut, messageQuery, newestFirst_filter hkey]
  rw [messageQuery] at hsplit
  rw [hsplit] at hsorted ⊢
  refine ⟨filter_lt_of_pairwise hsorted, ?_⟩
  exact (List.suffix_cons row rest).trans (List.suffix_append _ _)

/-- Each page is the front of what is left, and its cursor stands for the rest. -/
theorem fetchMessages_spec {rows : List (MessageRow τ ι)} (h : (rows.map (·.id)).Nodup) {sessionId : Str}
    {limit : Nat} (hlimit : 1 ≤ limit) (c : Option (MessageCursor τ ι)) (rest : List (MessageRow τ ι))
    (hrest : MessagesLeft rows sessionId c rest) :
    (fetchMessages rows sessionId limit c).1 = rest.take limit ∧
      ((fetchMessages rows sessionId limit c).2 = none ∧ rest.length < limit ∨
        ∃ next, (fetchMessages rows sessionId limit c).2 = some next ∧ limit ≤ rest.length ∧
          MessagesLeft rows sessionId (some next) (rest.drop limit)) := by
  obtain ⟨hleft, hsuffix⟩ := hrest
  have hpage : listMessages rows sessionId limit c = (rest.take limit).reverse := by
    rw [listMessages, hleft]
  simp only [fetchMessages, getMessages, hpage, nextMessageCursor, List.reverse_reverse, true_and,
    List.length_reverse, List.length_take]
  rcases Nat.lt_or_ge rest.length limit with hlt | hge
  · exact .inl ⟨if_pos (by omega), hlt⟩
  · obtain ⟨front, row, hfront⟩ := take_eq_concat hlimit hge
    refine .inr ⟨⟨row.createdAt, row.id⟩, ?_, hge, ?_⟩
    · rw [if_neg (by omega), hfront]
      simp
    · obtain ⟨before, hbefore⟩ := hsuffix
      refine messagesLeft_cursor (before ++ front) h ?_
      have hrest := List.take_append_drop limit rest
      rw [hfront] at hrest
      rw [← hbefore]
      conv_lhs => rw [← hrest]
      simp

/-- The pages of a session are its messages. -/
theorem messages_whole {rows : List (MessageRow τ ι)} (h : (rows.map (·.id)).Nodup) (sessionId : Str) {limit : Nat}
    (hlimit : 1 ≤ limit) : MessagesWhole rows sessionId limit := by
  have hstart : MessagesLeft rows sessionId none (newestFirst MessageRow.key (messageQuery rows sessionId none)) :=
    ⟨rfl, List.suffix_refl _⟩
  obtain ⟨pages, hpages, hflat⟩ := exists_paged hlimit (fetchMessages_spec h hlimit) hstart
  have hmap (c) (pages) (hpages : Paged (fetchMessages rows sessionId limit) c pages) :
      Paged (getMessages rows sessionId limit) c (pages.map List.reverse) := by
    induction hpages with
    | last hnone =>
      have hone := @Paged.last _ _ (getMessages rows sessionId limit) _ hnone
      simpa [fetchMessages] using hone
    | more hsome _ ih =>
      have hmore := @Paged.more _ _ (getMessages rows sessionId limit) _ _ _ hsome ih
      simpa [fetchMessages] using hmore
  refine ⟨_, hmap _ _ hpages, ?_⟩
  rw [← hflat, List.reverse_flatten]

/-! ## Workspaces -/

omit [LinearOrder τ] [LinearOrder ι] in
/-- Rows with different ids have different keys. -/
theorem pairwise_key_workspaces {rows : List (WorkspaceRow τ ι)} (h : (rows.map (·.id)).Nodup) :
    rows.Pairwise fun a b => a.key ≠ b.key := by
  refine (List.pairwise_map.mp h).imp fun hne heq => hne ?_
  exact congrArg Prod.snd (toLex_inj.mp heq)

omit [LinearOrder ι] in
theorem pairwise_key_workspaceQuery {rows : List (WorkspaceRow τ ι)} (h : (rows.map (·.id)).Nodup)
    (teamId : Str) (agentId : Option Str) (c : Option (WorkspaceCursor τ ι)) :
    (workspaceQuery rows teamId agentId c).Pairwise fun a b => a.key ≠ b.key := by
  cases c with
  | none => exact (pairwise_key_workspaces h).filter _
  | some cursor => exact ((pairwise_key_workspaces h).filter _).filter _

/-- What is left, in its order, does not get younger. -/
theorem pairwise_updatedAt (rows : List (WorkspaceRow τ ι)) :
    (newestFirst WorkspaceRow.key rows).Pairwise fun a b => b.updatedAt ≤ a.updatedAt := by
  refine (pairwise_newestFirst WorkspaceRow.key rows).imp fun {a b} hle => ?_
  rw [WorkspaceRow.key, WorkspaceRow.key, Prod.Lex.toLex_le_toLex] at hle
  rcases hle with hlt | ⟨heq, -⟩
  · exact hlt.le
  · exact heq.le

/-- The cursor at a row leaves what is behind it and older. -/
theorem workspaceQuery_cursor {rows : List (WorkspaceRow τ ι)} (h : (rows.map (·.id)).Nodup) {teamId : Str}
    {agentId : Option Str} {c : Option (WorkspaceCursor τ ι)} {front rest : List (WorkspaceRow τ ι)}
    {row : WorkspaceRow τ ι}
    (hsplit : newestFirst WorkspaceRow.key (workspaceQuery rows teamId agentId c) = front ++ row :: rest) :
    newestFirst WorkspaceRow.key (workspaceQuery rows teamId agentId (some ⟨row.updatedAt, row.id⟩)) =
      rest.filter (·.updatedAt < row.updatedAt) := by
  have hquery : workspaceQuery rows teamId agentId (some ⟨row.updatedAt, row.id⟩) =
      (workspaceQuery rows teamId agentId c).filter (·.updatedAt < row.updatedAt) := by
    cases c with
    | none => rfl
    | some cursor =>
      have hrow : row ∈ workspaceQuery rows teamId agentId (some cursor) := by
        refine (newestFirst_perm WorkspaceRow.key _).mem_iff.mp ?_
        rw [hsplit]
        simp
      have hbelow : row.updatedAt < cursor.updatedAt := by
        simpa using (List.mem_filter.mp hrow).2
      simp only [workspaceQuery, List.filter_filter]
      refine List.filter_congr fun other _ => ?_
      rw [Bool.eq_iff_iff]
      simp only [Bool.and_eq_true, decide_eq_true_eq]
      exact ⟨fun ⟨hlt, hmatch⟩ => ⟨hlt, hlt.trans hbelow, hmatch⟩, fun ⟨hlt, _, hmatch⟩ => ⟨hlt, hmatch⟩⟩
  have hsorted := pairwise_updatedAt (workspaceQuery rows teamId agentId c)
  rw [hquery, newestFirst_filter (pairwise_key_workspaceQuery h teamId agentId c), hsplit]
  rw [hsplit, List.pairwise_append] at hsorted
  have hfront : front.filter (·.updatedAt < row.updatedAt) = [] :=
    List.filter_eq_nil_iff.mpr fun a ha => by simpa using hsorted.2.2 a ha row List.mem_cons_self
  rw [List.filter_append, hfront, List.filter_cons_of_neg (by simp), List.nil_append]

omit [LinearOrder τ] [LinearOrder ι] in
/-- The cuts of a list are the first one and those of what is behind it. -/
theorem cutsBetweenTimes_drop {limit : Nat} (hlimit : 1 ≤ limit) {list : List (WorkspaceRow τ ι)}
    {row : WorkspaceRow τ ι} (hrow : list[limit - 1]? = some row) : CutsBetweenTimes limit list ↔
      (∀ next ∈ list[limit]?, row.updatedAt ≠ next.updatedAt) ∧ CutsBetweenTimes limit (list.drop limit) := by
  have hshift (n : Nat) : list[(n + 1 + 1) * limit - 1]? = (list.drop limit)[(n + 1) * limit - 1]? ∧
      list[(n + 1 + 1) * limit]? = (list.drop limit)[(n + 1) * limit]? := by
    have hmul : (n + 1 + 1) * limit = limit + (n + 1) * limit := by
      rw [Nat.succ_mul, Nat.add_comm]
    have hpos : 1 ≤ (n + 1) * limit := Nat.mul_pos (Nat.succ_pos n) hlimit
    rw [List.getElem?_drop, List.getElem?_drop, hmul, Nat.add_sub_assoc hpos]
    exact ⟨rfl, rfl⟩
  constructor
  · intro h
    refine ⟨fun next hnext => h 0 row (by simpa using hrow) next (by simpa using hnext), fun n last hlast next hnext => ?_⟩
    rw [← (hshift n).1] at hlast
    rw [← (hshift n).2] at hnext
    exact h (n + 1) last hlast next hnext
  · rintro ⟨hfirst, hrest⟩ n last hlast next hnext
    cases n with
    | zero =>
      obtain rfl : row = last := by simpa [hrow] using hlast
      exact hfirst next (by simpa using hnext)
    | succ n =>
      rw [(hshift n).1] at hlast
      rw [(hshift n).2] at hnext
      exact hrest n last hlast next hnext

/-- The pages from a cursor on are part of what it leaves, and all of it exactly when they end between timestamps. -/
theorem workspaces_paged {rows : List (WorkspaceRow τ ι)} (h : (rows.map (·.id)).Nodup) (teamId : Str)
    {limit : Nat} (hlimit : 1 ≤ limit) (agentId : Option Str) {c : Option (WorkspaceCursor τ ι)}
    {rest : List (WorkspaceRow τ ι)}
    (hrest : newestFirst WorkspaceRow.key (workspaceQuery rows teamId agentId c) = rest) :
    ∃ pages, Paged (getWorkspaces rows teamId limit agentId) c pages ∧ pages.flatten.Sublist rest ∧
      (pages.flatten = rest ↔ CutsBetweenTimes limit rest) := by
  induction hn : rest.length using Nat.strong_induction_on generalizing c rest with
  | _ n ih =>
    subst hn
    have hpage : listWorkspaces rows teamId limit c agentId = rest.take limit := by
      rw [listWorkspaces, hrest, List.take_take, Nat.min_eq_left (Nat.le_succ limit)]
    have hget : getWorkspaces rows teamId limit agentId c =
        (rest.take limit, nextWorkspaceCursor (rest.take limit) limit) := by
      rw [getWorkspaces, hpage]
    rcases Nat.lt_or_ge rest.length limit with hlt | hge
    · -- the last page, which is not full
      have hnone : (getWorkspaces rows teamId limit agentId c).2 = none := by
        rw [hget, nextWorkspaceCursor, List.length_take, if_pos (by omega)]
      refine ⟨_, .last hnone, ?_⟩
      rw [hget, List.take_of_length_le hlt.le]
      refine ⟨by simp, iff_of_true (by simp) fun n last _ next hnext => ?_⟩
      have hout : rest.length ≤ (n + 1) * limit := hlt.le.trans (Nat.le_mul_of_pos_left limit (Nat.succ_pos n))
      rw [List.getElem?_eq_none hout] at hnext
      cases hnext
    · obtain ⟨front, row, hfront⟩ := take_eq_concat hlimit hge
      have hsplit : rest = front ++ row :: rest.drop limit := by
        have htake := List.take_append_drop limit rest
        rw [hfront] at htake
        conv_lhs => rw [← htake]
        simp
      have hnext : (getWorkspaces rows teamId limit agentId c).2 = some ⟨row.updatedAt, row.id⟩ := by
        rw [hget, nextWorkspaceCursor, List.length_take, if_neg (by omega), hfront]
        simp
      have hleft := workspaceQuery_cursor h (hrest.trans hsplit)
      have hshort : ((rest.drop limit).filter (·.updatedAt < row.updatedAt)).length < rest.length := by
        have hle := List.length_filter_le (·.updatedAt < row.updatedAt) (rest.drop limit)
        rw [List.length_drop] at hle
        omega
      obtain ⟨pages, hpages, hsub, hiff⟩ := ih _ hshort hleft rfl
      refine ⟨_, .more hnext hpages, ?_⟩
      rw [hget, List.flatten_cons]
      have hfilter : ((rest.drop limit).filter (·.updatedAt < row.updatedAt)).Sublist (rest.drop limit) :=
        List.filter_sublist
      refine ⟨?_, ?_⟩
      · conv_rhs => rw [← List.take_append_drop limit rest]
        exact (List.Sublist.refl _).append (hsub.trans hfilter)
      have hrow : rest[limit - 1]? = some row := by
        have hlen : limit - 1 = front.length := by
          have := congrArg List.length hfront
          simp only [List.length_take, List.length_append, List.length_singleton] at this
          omega
        rw [hsplit, hlen]
        simp
      have hwhole : rest.take limit ++ pages.flatten = rest ↔ pages.flatten = rest.drop limit := by
        constructor
        · exact fun heq => List.append_cancel_left (heq.trans (List.take_append_drop limit rest).symm)
        · exact fun heq => by rw [heq, List.take_append_drop]
      rw [hwhole, cutsBetweenTimes_drop hlimit hrow]
      have hsorted := pairwise_updatedAt (workspaceQuery rows teamId agentId c)
      rw [hrest, hsplit, List.pairwise_append, List.pairwise_cons] at hsorted
      obtain ⟨-, ⟨hbehind, hdrop⟩, -⟩ := hsorted
      have hhead : rest[limit]? = (rest.drop limit).head? := by
        rw [List.head?_drop]
      rw [hhead]
      cases hback : rest.drop limit with
      | nil =>
        rw [hback] at hiff
        simpa using hiff
      | cons next back =>
        rw [hback] at hbehind hdrop hiff hsub
        have hle := hbehind next List.mem_cons_self
        by_cases htie : row.updatedAt = next.updatedAt
        · -- the next row shares the timestamp, so no later page has it
          refine iff_of_false (fun heq => ?_) fun hcuts => hcuts.1 next rfl htie
          rw [List.filter_cons_of_neg (by simp [htie]), heq] at hsub
          have hlen := (hsub.trans List.filter_sublist).length_le
          rw [List.length_cons] at hlen
          omega
        · have hlt := lt_of_le_of_ne hle (Ne.symm htie)
          have hall : (next :: back).filter (·.updatedAt < row.updatedAt) = next :: back := by
            refine List.filter_eq_self.mpr fun other hother => ?_
            rw [decide_eq_true_eq]
            rcases List.mem_cons.mp hother with rfl | hother
            · exact hlt
            · exact lt_of_le_of_lt ((List.pairwise_cons.mp hdrop).1 other hother) hlt
          rw [hall] at hiff
          rw [hiff, and_iff_right]
          rintro next' hnext'
          obtain rfl := Option.some.inj hnext'
          exact htie

/-- The pages of the workspaces are all of them exactly when no page ends between two rows of one timestamp. -/
theorem workspaces_whole_iff {rows : List (WorkspaceRow τ ι)} (h : (rows.map (·.id)).Nodup) (teamId : Str)
    {limit : Nat} (hlimit : 1 ≤ limit) (agentId : Option Str) : WorkspacesWhole rows teamId limit agentId ↔
      CutsBetweenTimes limit (newestFirst WorkspaceRow.key (workspaceQuery rows teamId agentId none)) := by
  obtain ⟨pages, hpages, -, hiff⟩ := workspaces_paged h teamId hlimit agentId (c := none) rfl
  rw [← hiff]
  constructor
  · rintro ⟨pages', hpages', hflat⟩
    rw [hpages.unique hpages']
    exact hflat
  · exact fun hflat => ⟨pages, hpages, hflat⟩

/-- Both listings are paged whole exactly when no page of the workspaces ends between two rows of one timestamp. -/
theorem paged_whole_iff {messages : List (MessageRow τ ι)} {workspaces : List (WorkspaceRow τ ι)}
    (hmessages : (messages.map (·.id)).Nodup) (hworkspaces : (workspaces.map (·.id)).Nodup) (sessionId teamId : Str)
    (agentId : Option Str) {limit : Nat} (hlimit : 1 ≤ limit) :
    MessagesWhole messages sessionId limit ∧ WorkspacesWhole workspaces teamId limit agentId ↔
      CutsBetweenTimes limit (newestFirst WorkspaceRow.key (workspaceQuery workspaces teamId agentId none)) := by
  rw [workspaces_whole_iff hworkspaces teamId hlimit agentId]
  exact and_iff_right (messages_whole hmessages sessionId hlimit)

/-- Two workspaces of one timestamp, the younger id first. -/
def tiedWorkspaces : List (WorkspaceRow Nat Nat) :=
  [⟨2, "t".toList, none, 5⟩, ⟨1, "t".toList, none, 5⟩]

/-- With one row to a page the second of them is on no page. -/
theorem tied_workspace_lost : ¬ WorkspacesWhole tiedWorkspaces "t".toList 1 none := by
  rw [workspaces_whole_iff (by decide) _ le_rfl]
  have hlist : newestFirst WorkspaceRow.key (workspaceQuery tiedWorkspaces "t".toList none none) =
      tiedWorkspaces := by
    refine newestFirst_of_pairwise ?_
    simp [workspaceQuery, tiedWorkspaces, WorkspaceRow.matches, WorkspaceRow.key, Prod.Lex.toLex_le_toLex]
  rw [hlist]
  exact fun h => h 0 _ rfl _ rfl rfl

/-- With two rows to a page they are on the first. -/
theorem paged_whole_pair :
    MessagesWhole [(⟨1, "s".toList, 7⟩ : MessageRow Nat Nat), ⟨2, "s".toList, 7⟩] "s".toList 2 ∧
      WorkspacesWhole (tiedWorkspaces ++ [⟨3, "t".toList, none, 4⟩]) "t".toList 2 none := by
  refine (paged_whole_iff (by decide) (by decide) _ _ none (by decide)).mpr ?_
  have hlist : newestFirst WorkspaceRow.key
      (workspaceQuery (tiedWorkspaces ++ [⟨3, "t".toList, none, 4⟩]) "t".toList none none) =
        tiedWorkspaces ++ [⟨3, "t".toList, none, 4⟩] := by
    refine newestFirst_of_pairwise ?_
    simp [workspaceQuery, tiedWorkspaces, WorkspaceRow.matches, WorkspaceRow.key, Prod.Lex.toLex_le_toLex]
  rw [hlist]
  rintro (_ | n) last hlast next hnext
  · cases hlast
    cases hnext
    decide
  · have hlt := (List.getElem?_eq_some_iff.mp hnext).1
    simp only [tiedWorkspaces, List.length_append, List.length_cons, List.length_nil] at hlt
    omega

end TeamClu.Listings
