import Mathlib.Algebra.BigOperators.Group.List.Basic
import TeamClu.Native.MessageCache

/-!
# Which sessions the message cache evicts

Key results:
- `evictsLru`: the sessions that were not used for the longest time are evicted, in the order of their
  last use, as few of them as bring the rest into the budget, and never the protected one.
-/

namespace TeamClu.MessageCache

/-- Sessions within the budget. -/
def Within (maxSessions maxBytes : Nat) (sessions : List (Str × SessionMeta)) : Prop :=
  sessions.length ≤ maxSessions ∧ (sessions.map (·.2.bytes)).sum ≤ maxBytes

/-- The session that an eviction spares. -/
def protectedId (protectSessionId : Option Str) : Option Str :=
  (protectSessionId.map Str.jsTrim).filter (· ≠ [])

/-- The sessions without some of them. -/
def without (sessions : OrderedMap Str SessionMeta) (victims : List Str) : List (Str × SessionMeta) :=
  sessions.entries.filter fun e => e.1 ∉ victims

/-- What an eviction may take. -/
structure EvictsLru (sessions : OrderedMap Str SessionMeta) (maxSessions maxBytes : Nat)
    (protect : Option Str) (victims : List Str) : Prop where
  cached : ∀ id ∈ victims, id ∈ sessions.keys
  spared : ∀ id ∈ victims, some id ≠ protect
  oldest : ∀ id info id' info', sessions.get id = some info → sessions.get id' = some info' →
    id ∈ victims → id' ∉ victims → some id' ≠ protect → info.lastAccessAt ≤ info'.lastAccessAt
  enough : Within maxSessions maxBytes (without sessions victims) ∨
    ∀ e ∈ without sessions victims, some e.1 = protect
  ordered : victims.Pairwise fun id id' => ∀ info info', sessions.get id = some info →
    sessions.get id' = some info' → info.lastAccessAt ≤ info'.lastAccessAt
  distinct : victims.Nodup
  least : ∀ before after, victims = before ++ after → after ≠ [] →
    ¬ Within maxSessions maxBytes (without sessions before)

variable {maxSessions maxBytes : Nat}

/-- The budget in the numbers of the loop, where `taken` is taken away. -/
private def Fits (maxSessions maxBytes count : Nat) (total : Int) (taken : List (Str × SessionMeta)) : Prop :=
  count - taken.length ≤ maxSessions ∧ total - (taken.map fun e => (e.2.bytes : Int)).sum ≤ maxBytes

/-- The loop takes the first sessions, until the rest fits. -/
private theorem pickVictims_spec (l : List (Str × SessionMeta)) (count : Nat) (total : Int) :
    ∃ taken kept, l = taken ++ kept ∧
      pickVictims maxSessions maxBytes l count total = taken.map (·.1) ∧
      (Fits maxSessions maxBytes count total taken ∨ kept = []) ∧
      ∀ part e rest, taken = part ++ e :: rest → ¬ Fits maxSessions maxBytes count total part := by
  induction l generalizing count total with
  | nil => exact ⟨[], [], rfl, rfl, .inr rfl, fun part e rest h => by simp at h⟩
  | cons e l ih =>
    rw [pickVictims]
    split
    · next hfits =>
      refine ⟨[], e :: l, rfl, rfl, .inl (by simpa [Fits] using hfits), fun part e' rest h => ?_⟩
      simp at h
    · next hover =>
      obtain ⟨taken, kept, rfl, hpick, hend, hleast⟩ := ih (count - 1) (total - e.2.bytes)
      -- One session more is taken away.
      have hcons (part : List (Str × SessionMeta)) :
          Fits maxSessions maxBytes count total (e :: part) ↔
            Fits maxSessions maxBytes (count - 1) (total - e.2.bytes) part := by
        simp only [Fits, List.length_cons, List.map_cons, List.sum_cons]
        omega
      refine ⟨e :: taken, kept, rfl, by rw [hpick, List.map_cons], hend.imp_left (hcons taken).mpr, ?_⟩
      intro part e' rest h
      cases part with
      | nil => simpa [Fits] using hover
      | cons d part =>
        obtain ⟨rfl, htaken⟩ := List.cons_eq_cons.mp h
        rw [hcons]
        exact hleast part e' rest htaken

/-- A part of the sessions and what is left without it are all of them. -/
private theorem perm_without {sessions : OrderedMap Str SessionMeta} {part : List (Str × SessionMeta)}
    (hpart : part.Subperm sessions.entries) :
    (part ++ without sessions (part.map (·.1))).Perm sessions.entries := by
  have hnodup : sessions.entries.Nodup := OrderedMap.nodup_entries
  have hnodup' : part.Nodup := by
    obtain ⟨l, hl, hsub⟩ := hpart
    exact hl.nodup_iff.mp (hnodup.sublist hsub)
  refine (List.perm_ext_iff_of_nodup ?_ hnodup).mpr fun e => ?_
  · refine List.nodup_append.mpr ⟨hnodup', hnodup.filter _, fun a ha b hb hab => ?_⟩
    have hb := (List.mem_filter.mp hb).2
    rw [decide_eq_true_iff, ← hab] at hb
    exact hb (List.mem_map_of_mem ha)
  · rw [List.mem_append]
    refine ⟨fun h => h.elim (fun h => hpart.subset h) fun h => (List.mem_filter.mp h).1, fun he => ?_⟩
    by_cases hmem : e.1 ∈ part.map (·.1)
    · obtain ⟨e', he', hkey⟩ := List.mem_map.mp hmem
      exact .inl (OrderedMap.eq_of_mem_entries (hpart.subset he') he hkey ▸ he')
    · exact .inr (List.mem_filter.mpr ⟨he, by simpa using hmem⟩)

private theorem sum_bytes (l : List (Str × SessionMeta)) :
    (l.map fun e => (e.2.bytes : Int)).sum = ((l.map (·.2.bytes)).sum : Nat) := by
  induction l with
  | nil => rfl
  | cons e l ih => rw [List.map_cons, List.sum_cons, ih, List.map_cons, List.sum_cons, Int.natCast_add]

/-- The numbers of the loop are those of what is left. -/
private theorem fits_iff_within {sessions : OrderedMap Str SessionMeta} {part : List (Str × SessionMeta)}
    (hpart : part.Subperm sessions.entries) :
    Fits maxSessions maxBytes sessions.keys.length
        (sessions.values.map fun session => (session.bytes : Int)).sum part ↔
      Within maxSessions maxBytes (without sessions (part.map (·.1))) := by
  have hperm := perm_without hpart
  have hlen := hperm.length_eq
  have hsum := (hperm.map fun e => (e.2.bytes : Int)).sum_eq
  have hcast := sum_bytes (without sessions (part.map (·.1)))
  rw [List.length_append] at hlen
  rw [List.map_append, List.sum_append, hcast] at hsum
  have hkeys : sessions.keys.length = sessions.entries.length := List.length_map _
  have hvalues : (sessions.values.map fun session => (session.bytes : Int)) =
      sessions.entries.map fun e => (e.2.bytes : Int) := List.map_map
  rw [Fits, Within, hkeys, hvalues]
  omega

/-- The evicted sessions are the least recently used ones, by their last use, as few as are enough, and never the
    protected one. -/
theorem evictsLru (info : ExtensionMessageCacheMeta) (maxSessions maxBytes : Nat) (protectSessionId : Option Str) :
    EvictsLru info.sessions maxSessions maxBytes (protectedId protectSessionId)
      (pickSessionsToEvict info maxSessions maxBytes protectSessionId) := by
  let unprotected := info.sessions.entries.filter fun e => some e.1 ≠ protectedId protectSessionId
  let sorted := unprotected.mergeSort (StableSort.keyLe fun e => e.2.lastAccessAt)
  have hperm : sorted.Perm unprotected := List.mergeSort_perm _ _
  obtain ⟨taken, kept, hsplit, hpick, hend, hleast⟩ := @pickVictims_spec maxSessions maxBytes sorted
    info.sessions.keys.length (info.sessions.values.map fun session => (session.bytes : Int)).sum
  have hvictims : pickSessionsToEvict info maxSessions maxBytes protectSessionId = taken.map (·.1) := hpick
  have hsub (part : List (Str × SessionMeta)) (h : part.Sublist sorted) :
      part.Subperm info.sessions.entries :=
    (h.subperm.trans hperm.subperm).trans List.filter_sublist.subperm
  have htaken : taken.Sublist sorted := hsplit ▸ List.sublist_append_left taken kept
  have hsorted : sorted.Pairwise fun e e' => e.2.lastAccessAt ≤ e'.2.lastAccessAt :=
    @StableSort.pairwise_mergeSort _ _ _ (fun e : Str × SessionMeta => e.2.lastAccessAt) unprotected
  have hmem {e : Str × SessionMeta} (he : e ∈ taken) :
      e ∈ info.sessions.entries ∧ some e.1 ≠ protectedId protectSessionId := by
    have := List.mem_filter.mp (hperm.subset (htaken.subset he))
    exact ⟨this.1, by simpa using this.2⟩
  rw [hvictims]
  refine ⟨?_, ?_, ?_, ?_, ?_, ?_, ?_⟩
  · rintro id hid
    obtain ⟨e, he, rfl⟩ := List.mem_map.mp hid
    exact List.mem_map_of_mem (hmem he).1
  · rintro id hid
    obtain ⟨e, he, rfl⟩ := List.mem_map.mp hid
    exact (hmem he).2
  · -- what is kept comes behind in the order of the last use
    intro id session id' session' hget hget' hid hid' hother
    have hin : (id, session) ∈ taken := by
      obtain ⟨e, he, rfl⟩ := List.mem_map.mp hid
      rw [← OrderedMap.mem_entries_iff] at hget
      exact OrderedMap.eq_of_mem_entries (hmem he).1 hget rfl ▸ he
    have hin' : (id', session') ∈ kept := by
      have hall : (id', session') ∈ sorted := by
        refine hperm.symm.subset (List.mem_filter.mpr ⟨OrderedMap.mem_entries_iff.mpr hget', ?_⟩)
        simpa using hother
      rw [hsplit] at hall
      exact (List.mem_append.mp hall).resolve_left fun h => hid' (List.mem_map_of_mem h)
    rw [hsplit, List.pairwise_append] at hsorted
    exact hsorted.2.2 _ hin _ hin'
  · -- either it fits, or all but the protected one are gone
    rcases hend with hfits | rfl
    · exact .inl ((fits_iff_within (hsub _ htaken)).mp hfits)
    · refine .inr fun e he => ?_
      obtain ⟨hentry, hnot⟩ := List.mem_filter.mp he
      by_contra hother
      rw [List.append_nil] at hsplit
      have : e ∈ taken := hsplit ▸ hperm.symm.subset (List.mem_filter.mpr ⟨hentry, by simpa using hother⟩)
      exact of_decide_eq_true hnot (List.mem_map_of_mem this)
  · rw [List.pairwise_map]
    refine ((hsorted.sublist htaken).and (List.pairwise_of_forall_mem_list fun e he e' he' => And.intro he he')).imp ?_
    rintro e e' ⟨hle, he, he'⟩ info info' hget hget'
    have hinfo := (OrderedMap.mem_entries_iff.mp (hmem he).1).symm.trans hget
    have hinfo' := (OrderedMap.mem_entries_iff.mp (hmem he').1).symm.trans hget'
    rw [← Option.some.inj hinfo, ← Option.some.inj hinfo']
    exact hle
  · have hnodup : (sorted.map (·.1)).Nodup :=
      ((hperm.map _).nodup_iff).mpr (info.sessions.nodup.sublist (List.filter_sublist.map _))
    exact hnodup.sublist (htaken.map _)
  · -- before the last one is gone it does not fit
    intro before after heq hne
    obtain ⟨part, rest, rfl, rfl, rfl⟩ := List.map_eq_append_iff.mp heq
    obtain ⟨e, rest, rfl⟩ := List.exists_cons_of_ne_nil (fun h : rest = [] => hne (by rw [h]; rfl))
    rw [← fits_iff_within (hsub _ ((List.sublist_append_left part (e :: rest)).trans htaken))]
    exact hleast part e rest rfl

end TeamClu.MessageCache
