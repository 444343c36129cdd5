import TeamClu.Spec.CacheRuns

/-!
# The budget of the message cache

The sizes in the metadata are those of what is stored (`Sizes`), so an eviction that brings the metadata into
the budget brings the storage into it.

Key results:
- `budget_kept`: after a call that prunes, and the prune that a load leaves running, at most `MAX_SESSIONS`
  sessions with at most `MAX_BYTES` bytes are stored, or only the protected session is.
- `prune_evicts`: what a prune takes away, and in which order.
-/

namespace TeamClu.MessageCache

open Program

variable {s : Storage}

/-- The metadata has the sessions that are stored, with their sizes. -/
def Sizes (s : Storage) : Prop := ∀ sessionId,
  (s.current.sessions.get sessionId).map (·.bytes) = (s.blobs.get sessionId).map estimateBytes

/-- What is stored is within the budget, or it is the protected session. -/
def Budget (protectSessionId : Option Str) (s : Storage) : Prop :=
  (s.blobs.keys.length ≤ MAX_SESSIONS ∧ (s.blobs.values.map estimateBytes).sum ≤ MAX_BYTES) ∨
    ∀ sessionId ∈ s.blobs.keys, some sessionId = protectedId protectSessionId

theorem Sizes.write (h : Sizes s) (sessionId : Str) (rows : List MessageRow) (now : Nat) :
    Sizes (s.write sessionId rows now) := by
  intro other
  change ((s.current.sessions.put sessionId _).get other).map _ =
    ((s.blobs.put sessionId rows).get other).map _
  rw [OrderedMap.get_put, OrderedMap.get_put]
  split
  · rfl
  · exact h other

theorem Sizes.evict (h : Sizes s) (victims : List Str) : Sizes (s.evict victims) := by
  intro sessionId
  change ((s.current.sessions.filter _).get sessionId).map _ = ((s.blobs.filter _).get sessionId).map _
  rw [OrderedMap.get_filter_notMem victims, OrderedMap.get_filter_notMem victims]
  split
  · rfl
  · exact h sessionId

/-- The sizes of the metadata and those of the storage are the same list, up to its order. -/
private theorem Sizes.perm (h : Sizes s) :
    (s.current.sessions.entries.map fun e => (e.1, e.2.bytes)).Perm
      (s.blobs.entries.map fun e => (e.1, estimateBytes e.2)) := by
  have hnodup {β : Type} (m : OrderedMap Str β) (f : β → Nat) :
      (m.entries.map fun e => (e.1, f e.2)).Nodup := by
    refine List.Nodup.of_map Prod.fst ?_
    rw [List.map_map]
    exact m.nodup
  have hmem {β : Type} (m : OrderedMap Str β) (f : β → Nat) (e : Str × Nat) :
      e ∈ m.entries.map (fun e => (e.1, f e.2)) ↔ (m.get e.1).map f = some e.2 := by
    obtain ⟨a, n⟩ := e
    simp only [List.mem_map, Option.map_eq_some_iff]
    constructor
    · rintro ⟨⟨a', b⟩, hb, heq⟩
      cases heq
      exact ⟨b, OrderedMap.mem_entries_iff.mp hb, rfl⟩
    · rintro ⟨b, hb, rfl⟩
      exact ⟨(a, b), OrderedMap.mem_entries_iff.mpr hb, rfl⟩
  refine (List.perm_ext_iff_of_nodup (hnodup _ _) (hnodup _ _)).mpr fun e => ?_
  rw [hmem, hmem, h e.1]

/-- A budget of the metadata is one of the storage. -/
private theorem Sizes.budget (h : Sizes s) {protectSessionId : Option Str}
    (hbudget : Within MAX_SESSIONS MAX_BYTES s.current.sessions.entries ∨
      ∀ e ∈ s.current.sessions.entries, some e.1 = protectedId protectSessionId) :
    Budget protectSessionId s := by
  have hperm := h.perm
  have hkeys : (s.current.sessions.entries.map (·.1)).Perm s.blobs.keys := by
    simpa [List.map_map, Function.comp_def, OrderedMap.keys] using hperm.map Prod.fst
  have hsum : (s.current.sessions.entries.map (·.2.bytes)).sum = (s.blobs.values.map estimateBytes).sum := by
    simpa [List.map_map, Function.comp_def, OrderedMap.values] using (hperm.map Prod.snd).sum_eq
  refine hbudget.imp (fun hwithin => ?_) fun honly sessionId hmem => ?_
  · rw [← hkeys.length_eq, List.length_map, ← hsum]
    exact hwithin
  · obtain ⟨e, he, rfl⟩ := List.mem_map.mp (hkeys.symm.subset hmem)
    exact honly e he

private theorem without_nil (sessions : OrderedMap Str SessionMeta) : without sessions [] = sessions.entries :=
  List.filter_eq_self.mpr fun e _ => by simp

/-- A prune brings the storage into the budget. -/
private theorem wp_prune_sizes (h : Sizes s) (protectSessionId : Option Str) :
    wp Reads (fun _ s' => Sizes s' ∧ Budget protectSessionId s') (pruneExtensionMessageCache protectSessionId) s := by
  have hlru := evictsLru s.current MAX_SESSIONS MAX_BYTES protectSessionId
  refine wp_prune (fun hnone => ⟨h, h.budget ?_⟩) fun _ => ⟨h.evict _, (h.evict _).budget ?_⟩
  · have henough := hlru.enough
    rw [show pickSessionsToEvict s.current MAX_SESSIONS MAX_BYTES protectSessionId = [] from hnone,
      without_nil] at henough
    exact henough
  · exact hlru.enough

private theorem wp_upsertSessions_sizes (h : Sizes s) (groups : List (Str × List MessageRow)) :
    wp Reads (fun _ s' => Sizes s') (upsertSessions groups s.current) s := by
  induction groups generalizing s with
  | nil => exact h
  | cons e groups ih =>
    rw [upsertSessions, wp_bind, wp_readSessionRows, wp_bind, wp_writeSessionRows]
    exact fun now => ih (h.write _ _ now)

private theorem wp_touchSession_sizes (h : Sizes s) (sessionId : Str) :
    wp Reads (fun _ s' => Sizes s') (touchSession sessionId s.current) s := by
  rw [touchSession]
  split
  · next session hsession =>
    rw [wp_bind, wp_dateNow]
    intro now
    rw [wp_writeMeta]
    intro other
    rw [← h other]
    change ((s.current.sessions.put sessionId _).get other).map _ = _
    rw [OrderedMap.get_put]
    split
    · next heq => rw [heq, hsession]; rfl
    · rfl
  · exact h

/-- The session in which a message is found. -/
def Storage.found (s : Storage) (messageId : Str) : Option Str := (s.place messageId).filter (s.holds messageId)

/-- One call. -/
private theorem wp_call_sizes (h : Sizes s) (c : CacheCall) :
    wp Reads (fun _ s' => Sizes s' ∧ ∀ p, c.prunes s.found = some p → Budget p s') c.program s := by
  -- the last thing that such a call does is to prune
  have hprune {t : Storage} (h : Sizes t) {p : Option Str} (hp : ∀ p', c.prunes s.found = some p' → p = p') :
      wp Reads (fun _ s' => Sizes s' ∧ ∀ p, c.prunes s.found = some p → Budget p s')
        (pruneExtensionMessageCache p) t :=
    wp_mono (fun _ _ hs => ⟨hs.1, fun p' hp' => hp p' hp' ▸ hs.2⟩) (wp_prune_sizes h p)
  cases c with
  | upsert rows =>
    change wp Reads _ (upsertExtensionMessagesBatch rows) s
    rw [upsertExtensionMessagesBatch]
    split
    · next hnil => exact ⟨h, fun p hp => by simp [CacheCall.prunes, hnil] at hp⟩
    · next hne =>
      rw [wp_bind, wp_readMeta, wp_bind]
      refine wp_mono (fun _ s' hs' => ?_) (wp_upsertSessions_sizes h _)
      rw [wp_bind]
      refine wp_mono (fun _ _ hs => hs) (hprune hs' fun p' hp' => ?_)
      rw [CacheCall.prunes, if_neg hne] at hp'
      exact Option.some.inj hp'
  -- the prune that a load starts comes after its reads
  | load sessionId includeDeleted =>
    rw [CacheCall.program, wp_bind, loadExtensionMessagesForSession, wp_bind, wp_readSessionRows, wp_bind,
      wp_readMeta, wp_bind]
    refine wp_mono (fun _ s' hs' => ?_) (wp_touchSession_sizes h sessionId)
    rw [wp_pure, wp_bind]
    exact wp_mono (fun _ _ hs => hs) (hprune hs' fun p' hp' => Option.some.inj hp')
  | setParts messageId partsJson =>
    refine (wp_bind _ _ _ s).mpr ?_
    rw [setExtensionMessageParts, wp_bind, wp_readMeta, wp_bind]
    rw [wp_findRows_iff]
    have hfound : (CacheCall.setParts messageId partsJson).prunes s.found =
        ((s.place messageId).filter (s.holds messageId)).map some := rfl
    rw [hfound] at hprune ⊢
    cases hplace : s.place messageId with
    | none => exact ⟨h, fun p hp => by cases hp⟩
    | some sessionId =>
      rw [hplace] at hprune
      rw [Option.map_some]
      dsimp only
      change wp Reads _ (if !s.holds messageId sessionId then _ else _) s
      cases hholds : s.holds messageId sessionId with
      | false => exact ⟨h, fun p hp => by simp [Option.filter, hholds] at hp⟩
      | true =>
        rw [if_neg (by simp), wp_bind, wp_writeSessionRows]
        intro now
        rw [wp_bind]
        refine wp_mono (fun _ _ hs => hs) (hprune (h.write _ _ now) fun p' hp' => ?_)
        rw [Option.filter_some, if_pos hholds] at hp'
        exact Option.some.inj hp'
  | softDelete id deletedAt =>
    change wp Reads _ (softDeleteExtensionMessage id deletedAt) s
    rw [softDeleteExtensionMessage, wp_bind, wp_readMeta]
    split
    · exact ⟨h, fun p hp => by cases hp⟩
    · rw [wp_bind, wp_readSessionRows, wp_bind, wp_writeSessionRows]
      exact fun now => ⟨h.write _ _ now, fun p hp => by cases hp⟩
  | prune protectSessionId =>
    exact (wp_bind _ _ _ s).mpr (wp_mono (fun _ _ hs => hs) (hprune h fun p' hp' => Option.some.inj hp'))

private theorem sizes_run (inputs : List (CacheCall × (Nat → Nat))) : Sizes (cache.run inputs) := by
  suffices hfrom : ∀ s, Sizes s → Sizes (cache.runFrom s inputs) from hfrom _ fun _ => rfl
  induction inputs with
  | nil => exact fun s h => h
  | cons input inputs ih =>
    exact fun s h => ih _ (wp_run (wp_call_sizes h input.1) (reads_clock input.2)).1

/-- The last call of a run. -/
private theorem run_concat (inputs : List (CacheCall × (Nat → Nat))) (c : CacheCall) (times : Nat → Nat) :
    cache.run (inputs ++ [(c, times)]) =
      (Program.run (C := calls) c.program (clock times) (cache.run inputs)).2 := by
  rw [Machine.run, Machine.runFrom_append]
  rfl

/-- After any calls, the last of which prunes: what is stored is within the budget, or it is the session that
    the prune protects. -/
theorem budget_kept (inputs : List (CacheCall × (Nat → Nat))) (c : CacheCall) (times : Nat → Nat) :
    ∀ p, c.prunes (cache.run inputs).found = some p → Budget p (cache.run (inputs ++ [(c, times)])) := by
  rw [run_concat]
  exact (wp_run (wp_call_sizes (sizes_run inputs) c) (reads_clock times)).2

theorem budget_kept_greeting :
    Budget (some ['a']) (cache.run ([] ++ [(.upsert [greeting], fun n => n)])) :=
  budget_kept [] (.upsert [greeting]) (fun n => n) (some ['a']) rfl

/-- After any calls, a prune takes away the sessions that it returns: the least recently used ones in the order
    of their last use, as few as bring the sizes of what is stored into the budget, and not the one that it
    protects. -/
theorem prune_evicts (inputs : List (CacheCall × (Nat → Nat))) (p : Option Str) (times : Nat → Nat) :
    let s := cache.run inputs
    let s' := cache.run (inputs ++ [(.prune p, times)])
    let victims := (Program.run (C := calls) (pruneExtensionMessageCache p) (clock times) s).1
    EvictsLru s.current.sessions MAX_SESSIONS MAX_BYTES (protectedId p) victims ∧
      (∀ sessionId, (s.current.sessions.get sessionId).map (·.bytes) =
        (s.blobs.get sessionId).map estimateBytes) ∧
      ∀ sessionId, s'.blobs.get sessionId = if sessionId ∈ victims then none else s.blobs.get sessionId := by
  intro s s' victims
  have hvictims : victims = s.victims p :=
    wp_run (Q := fun returned _ => returned = s.victims p)
      (wp_prune (fun hnone => hnone.symm) fun _ => rfl) (reads_clock times)
  rw [hvictims]
  refine ⟨evictsLru _ _ _ _, sizes_run inputs, ?_⟩
  -- nothing else is removed
  have hwp : wp Reads (fun _ t => ∀ sessionId, t.blobs.get sessionId =
      if sessionId ∈ s.victims p then none else s.blobs.get sessionId) (CacheCall.prune p).program s := by
    refine (wp_bind _ _ _ s).mpr (wp_prune (fun hnone sessionId => ?_) fun _ sessionId => ?_)
    · rw [hnone, if_neg List.not_mem_nil]
    · change (s.blobs.filter _).get sessionId = _
      exact OrderedMap.get_filter_notMem (s.victims p)
  rw [show s' = _ from run_concat inputs (.prune p) times]
  exact wp_run hwp (reads_clock times)

end TeamClu.MessageCache
