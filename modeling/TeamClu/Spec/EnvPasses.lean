import Mathlib.Data.List.Nodup
import TeamClu.Spec.EnvInserts

/-!
# What a pass over the aliases keeps

A pass keeps what is bound, adds aliases with the value and the scope of the key they are made from,
and loses no value.  Where no two keys have the same alias, it does not depend on the order in which
the map is iterated over, and who overrides a value stays bound.  Where two keys have the same alias
there are two orders that say different things about it (`clash`).

## Key results

- `Env.Agree.addAliases`: a pass without clashes does not depend on the order
- `lost_addAliases`: what is offered is bound or overridden
- `winners_addAliases`: who overrides a value is bound
- `aliased_addAliases`: where an alias comes from
- `clash`: what two keys with the same alias do
-/

namespace TeamClu.RuntimeEnv

open StableSort

/-- The keys of the environment have different aliases. -/
def Env.NoClash (env : Env) (aliasFor : Str → Option Str) : Prop :=
  ∀ k k' : Str, k ∈ env.bindings → k' ∈ env.bindings → ∀ alias_, aliasFor k = some alias_ →
    aliasFor k' = some alias_ → k = k'

/-- Two environments that say the same of every key. -/
structure Env.Agree (env env' : Env) : Prop where
  bindings : env.bindings = env'.bindings
  provenance : env.provenance = env'.provenance
  overrides : ∀ key, env.overridesAt key = env'.overridesAt key

section Pass

variable {env : Env} {source : EnvSource} {aliasFor : Str → Option Str} {key : Str}
  {order : Order (Str × Str)}

theorem mem_bindings_iff : key ∈ env.bindings ↔ ∃ value, env.bindings[key]? = some value := by
  rw [Std.ExtTreeMap.mem_iff_isSome_getElem?, Option.isSome_iff_exists]

theorem mem_order {e : Str × Str} : e ∈ order.1 env.bindings.toList ↔
    env.bindings[e.1]? = some e.2 :=
  (order.2 env.bindings.toList).mem_iff.trans TreeMap.mem_toList

/-- The values that are offered for a key. -/
theorem mem_aliases {offer : Str × EnvProvenance} :
    offer ∈ env.aliases source aliasFor key order ↔
      ∃ p, aliasFor p.key = some key ∧ env.bindings[p.key]? = some offer.1 ∧
        env.provenance[p.key]? = some p ∧ offer.2 = aliasProvenance source key p := by
  obtain ⟨value, winner⟩ := offer
  simp only [Env.aliases, List.mem_filterMap, mem_order, Prod.exists, Env.aliasAt,
    Option.ite_none_right_eq_some, Option.map_eq_some_iff, Prod.mk.injEq]
  constructor
  · rintro ⟨origin, v, hbound, halias, p, hp, rfl, rfl⟩
    obtain rfl := env.keyed origin p hp
    exact ⟨p, halias, hbound, hp, rfl⟩
  · rintro ⟨p, halias, hbound, hp, rfl⟩
    exact ⟨p.key, value, hbound, halias, p, hp, rfl, rfl⟩

/-- What is offered does not depend on the order, but for its own order. -/
theorem aliases_perm (order order' : Order (Str × Str)) :
    (env.aliases source aliasFor key order).Perm (env.aliases source aliasFor key order') :=
  ((order.2 _).trans (order'.2 _).symm).filterMap _

/-- The provenance of a key is filed under it. -/
theorem map_key_provenance :
    (env.provenance.toList.map (·.2)).map (·.key) = env.provenance.keys := by
  rw [← Std.ExtTreeMap.map_fst_toList_eq_keys, List.map_map]
  exact List.map_congr_left fun e he => env.keyed e.1 e.2 (TreeMap.mem_toList.mp he)

/-- The provenance of the bindings, in the order of the iteration. -/
private theorem origins_perm : ((order.1 env.bindings.toList).filterMap fun e =>
    env.provenance[e.1]?).Perm (env.provenance.toList.map (·.2)) := by
  refine (List.perm_ext_iff_of_nodup ?_ ?_).mpr fun p => ?_
  · have hkeys : ((order.1 env.bindings.toList).map (·.1)).Nodup := by
      refine ((order.2 _).map _).nodup_iff.mpr ?_
      rw [Std.ExtTreeMap.map_fst_toList_eq_keys]
      exact Std.ExtTreeMap.nodup_keys
    rw [List.Nodup, List.pairwise_map] at hkeys
    rw [List.Nodup, List.pairwise_filterMap]
    refine hkeys.imp fun {e e'} hne p hp p' hp' heq => hne ?_
    rw [← env.keyed _ _ hp, ← env.keyed _ _ hp', heq]
  · refine List.Nodup.of_map (fun p : EnvProvenance => p.key) ?_
    rw [map_key_provenance]
    exact Std.ExtTreeMap.nodup_keys
  · simp only [List.mem_filterMap, mem_order, Prod.exists, List.mem_map, TreeMap.mem_toList]
    constructor
    · rintro ⟨k, v, -, hp⟩
      exact ⟨k, p, hp, rfl⟩
    · rintro ⟨k, q, hq, rfl⟩
      have hmem : k ∈ env.bindings := (env.same k).mpr
        (Std.ExtTreeMap.mem_iff_isSome_getElem?.mpr (by rw [hq]; rfl))
      obtain ⟨v, hv⟩ := mem_bindings_iff.mp hmem
      exact ⟨k, v, hv, hq⟩

/-- What a key with some provenance offers for another key. -/
def aliasOffer (source : EnvSource) (aliasFor : Str → Option Str) (key : Str) (p : EnvProvenance) :
    Option EnvProvenance :=
  if aliasFor p.key = some key then some (aliasProvenance source key p) else none

/-- What is offered is offered by the provenance. -/
theorem map_aliases_perm : ((env.aliases source aliasFor key order).map (·.2)).Perm
    ((env.provenance.toList.map (·.2)).filterMap (aliasOffer source aliasFor key)) := by
  have heq : (env.aliases source aliasFor key order).map (·.2) =
      ((order.1 env.bindings.toList).filterMap fun e => env.provenance[e.1]?).filterMap
        (aliasOffer source aliasFor key) := by
    rw [Env.aliases, List.map_filterMap, List.filterMap_filterMap]
    refine List.filterMap_congr fun e _ => ?_
    cases hp : env.provenance[e.1]? with
    | none => simp [Env.aliasAt, hp]
    | some p =>
      obtain ⟨k, v⟩ := e
      obtain rfl := env.keyed k p hp
      by_cases halias : aliasFor p.key = some key <;> simp [Env.aliasAt, aliasOffer, halias, hp]
  rw [heq]
  exact origins_perm.filterMap _

/-! ## What is kept -/

theorem provenance_addAliases_of_some {p : EnvProvenance} (h : env.provenance[key]? = some p) :
    (env.addAliases order source aliasFor).provenance[key]? = some p := by
  rw [provenance_addAliases, h, Option.some_or]

theorem bindings_addAliases_of_some {value : Str} (h : env.bindings[key]? = some value) :
    (env.addAliases order source aliasFor).bindings[key]? = some value := by
  rw [bindings_addAliases, h, Option.some_or]

/-- Overrides stay. -/
theorem mem_overridesAt_addAliases {o : EnvOverride} (h : o ∈ env.overridesAt key) :
    o ∈ (env.addAliases order source aliasFor).overridesAt key := by
  rw [overridesAt_addAliases]
  exact List.mem_append_left _ h

/-- A pass adds nothing but aliases. -/
theorem eq_or_alias_of_addAliases {p : EnvProvenance}
    (h : (env.addAliases order source aliasFor).provenance[key]? = some p) :
    env.provenance[key]? = some p ∨ ∃ origin, p = aliasProvenance source key origin := by
  rw [provenance_addAliases, Option.or_eq_some_iff] at h
  rcases h with h | ⟨-, h⟩
  · exact .inl h
  · obtain ⟨offer, hlast, rfl⟩ := Option.map_eq_some_iff.mp h
    obtain ⟨origin, -, -, -, heq⟩ := mem_aliases.mp (List.mem_of_getLast? hlast)
    exact .inr ⟨origin, heq⟩

/-- A key that a pass binds is the alias of a key that was bound. -/
theorem aliased_addAliases {value : Str} (hfree : env.bindings[key]? = none)
    (h : (env.addAliases order source aliasFor).bindings[key]? = some value) :
    ∃ p, aliasFor p.key = some key ∧ env.bindings[p.key]? = some value ∧
      env.provenance[p.key]? = some p ∧
      (env.addAliases order source aliasFor).provenance[key]? = some (aliasProvenance source key p) := by
  rw [bindings_addAliases, hfree, Option.none_or, Option.map_eq_some_iff] at h
  obtain ⟨offer, hlast, rfl⟩ := h
  obtain ⟨p, halias, hbound, hp, hoffer⟩ := mem_aliases.mp (List.mem_of_getLast? hlast)
  refine ⟨p, halias, hbound, hp, ?_⟩
  have hnone : env.provenance[key]? = none := by
    rw [← Option.not_isSome_iff_eq_none, ← isSome_bindings_iff, hfree]
    exact Bool.false_ne_true
  rw [provenance_addAliases, hnone, Option.none_or, hlast, Option.map_some, hoffer]

/-- A pass loses nothing: what it offers is bound or overridden. -/
theorem lost_addAliases :
    (((env.addAliases order source aliasFor).overridesAt key).map (·.overridden) ++
      ((env.addAliases order source aliasFor).provenance[key]?).toList).Perm
    (((env.overridesAt key).map (·.overridden) ++ (env.provenance[key]?).toList) ++
      (env.aliases source aliasFor key order).map (·.2)) := by
  rw [overridesAt_addAliases, provenance_addAliases]
  cases env.provenance[key]? with
  | none =>
    have hlosses := map_overridden_losses .aliasCollision none
      ((env.aliases source aliasFor key order).map (·.2))
    rw [Option.or_none, List.getLast?_map, Option.toList_none, List.nil_append] at hlosses
    rw [List.map_append, Option.none_or, List.append_assoc, hlosses, Option.toList_none,
      List.append_nil]
  | some p =>
    rw [List.map_append, List.map_map, Option.some_or, List.append_assoc, List.append_assoc]
    exact List.Perm.append_left _ List.perm_append_comm

/-- Where at most one value is offered for each key, who overrides a value is bound. -/
theorem winners_addAliases (hone : ∀ key, (env.aliases source aliasFor key order).length ≤ 1)
    (h : ∀ o ∈ env.overrides, env.provenance[o.key]? = some o.winner) :
    ∀ o ∈ (env.addAliases order source aliasFor).overrides,
      (env.addAliases order source aliasFor).provenance[o.key]? = some o.winner := by
  intro o ho
  have hat : o ∈ (env.addAliases order source aliasFor).overridesAt o.key :=
    List.mem_filter.mpr ⟨ho, by simp⟩
  rw [overridesAt_addAliases, List.mem_append] at hat
  rcases hat with hold | hnew
  · exact provenance_addAliases_of_some (h o (List.mem_filter.mp hold).1)
  · cases hp : env.provenance[o.key]? with
    | some p =>
      rw [hp] at hnew
      obtain ⟨offer, -, heq⟩ := List.mem_map.mp hnew
      have hwinner : o.winner = p := by rw [← heq]
      rw [provenance_addAliases_of_some hp, hwinner]
    | none =>
      rw [hp] at hnew
      have hlen : ((none : Option EnvProvenance).toList ++
          (env.aliases source aliasFor o.key order).map (·.2)).length ≤ 2 := by
        have := hone o.key
        simp only [Option.toList_none, List.nil_append, List.length_map]
        omega
      rw [provenance_addAliases, hp, Option.none_or, ← List.getLast?_map,
        (winner_of_mem_losses hlen hnew).1, Option.or_none]

/-! ## Clashes -/

/-- Without clashes a key is offered at most one value. -/
theorem Env.NoClash.length_aliases_le_one (h : env.NoClash aliasFor) (source : EnvSource)
    (key : Str) (order : Order (Str × Str)) :
    (env.aliases source aliasFor key order).length ≤ 1 := by
  have hnodup : ((order.1 env.bindings.toList).map (·.1)).Nodup := by
    refine ((order.2 _).map _).nodup_iff.mpr ?_
    rw [Std.ExtTreeMap.map_fst_toList_eq_keys]
    exact Std.ExtTreeMap.nodup_keys
  rw [List.Nodup, List.pairwise_map] at hnodup
  have hpair : (env.aliases source aliasFor key order).Pairwise fun _ _ => False := by
    rw [Env.aliases, List.pairwise_filterMap]
    refine List.Pairwise.imp_of_mem (fun {e e'} he he' hne offer hoffer offer' hoffer' => hne ?_) hnodup
    simp only [Env.aliasAt, Option.ite_none_right_eq_some] at hoffer hoffer'
    exact h e.1 e'.1 (mem_bindings_iff.mpr ⟨_, mem_order.mp he⟩)
      (mem_bindings_iff.mpr ⟨_, mem_order.mp he'⟩) key hoffer.1 hoffer'.1
  generalize env.aliases source aliasFor key order = offers at hpair
  rcases offers with _ | ⟨a, _ | ⟨b, rest⟩⟩
  · exact Nat.zero_le _
  · exact Nat.le_refl _
  · exact ((List.pairwise_cons.mp hpair).1 b List.mem_cons_self).elim

/-- Without clashes a pass does not depend on the order. -/
theorem Env.Agree.addAliases {env' : Env} (h : env.Agree env') (hclash : env.NoClash aliasFor)
    (source : EnvSource) (order order' : Order (Str × Str)) :
    (env.addAliases order source aliasFor).Agree (env'.addAliases order' source aliasFor) := by
  have haliases (key : Str) :
      env.aliases source aliasFor key order = env'.aliases source aliasFor key order' := by
    have hsame : env'.aliases source aliasFor key order' = env.aliases source aliasFor key order' := by
      have hat : env'.aliasAt source aliasFor key = env.aliasAt source aliasFor key := by
        funext e
        rw [Env.aliasAt, Env.aliasAt, h.provenance]
      rw [Env.aliases, Env.aliases, hat, h.bindings]
    rw [hsame]
    exact eq_of_perm_of_length_le_one (aliases_perm order order')
      (hclash.length_aliases_le_one source key order)
  refine ⟨Std.ExtTreeMap.ext_getElem? fun key => ?_, Std.ExtTreeMap.ext_getElem? fun key => ?_,
    fun key => ?_⟩
  · rw [bindings_addAliases, bindings_addAliases, haliases, h.bindings]
  · rw [provenance_addAliases, provenance_addAliases, haliases, h.provenance]
  · rw [overridesAt_addAliases, overridesAt_addAliases, haliases, h.provenance, h.overrides]

/-- The order that comes to a key last. -/
def lastOrder (k : Str) : Order (Str × Str) :=
  ⟨fun l => l.filter (·.1 ≠ k) ++ l.filter (·.1 = k), fun l => by
    have h := List.filter_append_perm (fun e : Str × Str => decide (e.1 ≠ k)) l
    simpa only [decide_not, Bool.not_not] using h⟩

/-- A key that is come to last makes the last offer for its alias. -/
private theorem getLast?_aliases_lastOrder (source : EnvSource) {k : Str} (halias : aliasFor k = some key)
    (hk : k ∈ env.bindings) : ∃ value p, p.key = k ∧
      (env.aliases source aliasFor key (lastOrder k)).getLast? =
        some (value, aliasProvenance source key p) := by
  obtain ⟨value, hvalue⟩ := mem_bindings_iff.mp hk
  obtain ⟨p, hp⟩ := Option.isSome_iff_exists.mp
    (Std.ExtTreeMap.mem_iff_isSome_getElem?.mp ((env.same k).mp hk))
  refine ⟨value, p, env.keyed k p hp, ?_⟩
  have hlast := TreeMap.filter_of_perm_toList (List.Perm.refl env.bindings.toList) k
  rw [hvalue] at hlast
  unfold Env.aliases lastOrder
  rw [List.filterMap_append, hlast]
  simp [Env.aliasAt, halias, hp]

/-- Where two keys have the same alias, two orders say different things about it. -/
theorem clash {k k' : Str} (hne : k ≠ k') (halias : aliasFor k = some key)
    (halias' : aliasFor k' = some key) (hk : k ∈ env.bindings) (hk' : k' ∈ env.bindings)
    (hprovenance : (env.addAliases (lastOrder k) source aliasFor).provenance[key]? =
      (env.addAliases (lastOrder k') source aliasFor).provenance[key]?)
    (later later' : List EnvOverride)
    (hoverrides : (env.addAliases (lastOrder k) source aliasFor).overridesAt key ++ later =
      (env.addAliases (lastOrder k') source aliasFor).overridesAt key ++ later') : False := by
  obtain ⟨value, p, rfl, hlast⟩ := getLast?_aliases_lastOrder source halias hk
  obtain ⟨value', p', rfl, hlast'⟩ := getLast?_aliases_lastOrder source halias' hk'
  rw [overridesAt_addAliases, overridesAt_addAliases] at hoverrides
  rw [provenance_addAliases, provenance_addAliases, hlast, hlast'] at hprovenance
  cases hbound : env.provenance[key]? with
  | none =>
    -- the alias is bound to the key that came last
    rw [hbound] at hprovenance
    have heq := Option.some.inj hprovenance
    exact hne (Option.some.inj (congrArg EnvProvenance.aliasOf heq))
  | some w =>
    -- the collisions of the alias are listed in the order of the iteration
    simp only [hbound, List.append_assoc] at hoverrides
    have hlists := (List.append_inj (List.append_cancel_left hoverrides) (by
      rw [List.length_map, List.length_map, (aliases_perm _ _).length_eq])).1
    have heq := congrArg List.getLast? hlists
    rw [List.getLast?_map, List.getLast?_map, hlast, hlast'] at heq
    have hoverridden := congrArg EnvOverride.overridden (Option.some.inj heq)
    exact hne (Option.some.inj (congrArg EnvProvenance.aliasOf hoverridden))

end Pass

end TeamClu.RuntimeEnv
