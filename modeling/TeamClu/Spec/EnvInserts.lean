import TeamClu.ForStd.Assoc
import TeamClu.Native.ResolvedEnv

/-!
# What an environment says of one key

Insertions are followed key by key: the last value inserted under a key is bound, and every value
before it is overridden by the next (`losses`).  The same is said of a pass over the aliases, whose
values for a key that is bound already are all overridden by what is bound.

## Key results

- `provenance_insertAll`, `bindings_insertAll`, `overridesAt_insertAll`: what insertions do to a key
- `provenance_addAliases`, `bindings_addAliases`, `overridesAt_addAliases`: what a pass does to a key
- `provenance_layered`, `bindings_layered`, `overridesAt_layered`: what the layers do to a key, in
  whatever order the team map is read
-/

namespace TeamClu.RuntimeEnv

open StableSort

/-! ## Insertions -/

/-- The overrides of one key. -/
def Env.overridesAt (env : Env) (key : Str) : List EnvOverride := env.overrides.filter (·.key = key)

/-- Values with their provenance, inserted one after another. -/
def Env.insertAll (env : Env) (kind : EnvOverrideKind) (offers : List (Str × EnvProvenance)) : Env :=
  offers.foldl (fun env (value, winner) => env.insert kind value winner) env

/-- The overrides of values that are inserted under one key, where something may be bound. -/
def losses (kind : EnvOverrideKind) : Option EnvProvenance → List EnvProvenance → List EnvOverride
  | _, [] => []
  | none, winner :: winners => losses kind (some winner) winners
  | some overridden, winner :: winners =>
    { key := winner.key, kind, overridden, winner } :: losses kind (some winner) winners

@[simp] theorem losses_nil (kind : EnvOverrideKind) (bound : Option EnvProvenance) :
    losses kind bound [] = [] := by
  cases bound <;> rfl

theorem losses_cons (kind : EnvOverrideKind) (bound : Option EnvProvenance) (winner : EnvProvenance)
    (winners : List EnvProvenance) :
    losses kind bound (winner :: winners) =
      (bound.toList.map fun overridden => { key := winner.key, kind, overridden, winner }) ++
        losses kind (some winner) winners := by
  cases bound <;> rfl

/-- What was overridden, and the last value, are all values. -/
theorem map_overridden_losses (kind : EnvOverrideKind) (bound : Option EnvProvenance)
    (winners : List EnvProvenance) :
    (losses kind bound winners).map (·.overridden) ++ (winners.getLast?.or bound).toList =
      bound.toList ++ winners := by
  induction winners generalizing bound with
  | nil => simp
  | cons winner winners ih =>
    have hrest := ih (some winner)
    rw [losses_cons, List.map_append, List.append_assoc]
    have hlast : (winner :: winners).getLast?.or bound = winners.getLast?.or (some winner) := by
      cases winners with
      | nil => rfl
      | cons w ws => simp [List.getLast?_cons]
    rw [hlast, hrest, List.map_map]
    cases bound <;> rfl

/-- Of at most two values the one that is bound is the winner. -/
theorem winner_of_mem_losses {kind : EnvOverrideKind} {bound : Option EnvProvenance}
    {winners : List EnvProvenance} (hlen : (bound.toList ++ winners).length ≤ 2) {o : EnvOverride}
    (ho : o ∈ losses kind bound winners) :
    some o.winner = winners.getLast?.or bound ∧ o.key = o.winner.key := by
  match bound, winners with
  | none, [] => cases ho
  | none, [w] => cases ho
  | none, [w, w'] =>
    obtain rfl := List.mem_singleton.mp ho
    exact ⟨rfl, rfl⟩
  | none, w :: w' :: w'' :: ws => simp at hlen
  | some p, [] => cases ho
  | some p, [w] =>
    obtain rfl := List.mem_singleton.mp ho
    exact ⟨rfl, rfl⟩
  | some p, w :: w' :: ws => simp at hlen

@[simp] theorem Env.provenance_insert (env : Env) (kind : EnvOverrideKind) (value : Str)
    (winner : EnvProvenance) :
    (env.insert kind value winner).provenance = env.provenance.insert winner.key winner := rfl

@[simp] theorem Env.bindings_insert (env : Env) (kind : EnvOverrideKind) (value : Str)
    (winner : EnvProvenance) :
    (env.insert kind value winner).bindings = env.bindings.insert winner.key value := rfl

section Insertions

variable (env : Env) (kind : EnvOverrideKind) (key : Str)

theorem provenance_insertAll (offers : List (Str × EnvProvenance)) :
    (env.insertAll kind offers).provenance[key]? =
      ((offers.filter (·.2.key = key)).getLast?.map (·.2)).or env.provenance[key]? := by
  induction offers generalizing env with
  | nil => rfl
  | cons offer offers ih =>
    rw [Env.insertAll, List.foldl_cons, ← Env.insertAll, ih, Env.provenance_insert, TreeMap.get_insert]
    by_cases h : offer.2.key = key
    · rw [if_pos h, List.filter_cons_of_pos (by simpa using h), List.getLast?_cons]
      cases (offers.filter (·.2.key = key)).getLast? <;> rfl
    · rw [if_neg h, List.filter_cons_of_neg (by simpa using h)]

theorem bindings_insertAll (offers : List (Str × EnvProvenance)) :
    (env.insertAll kind offers).bindings[key]? =
      ((offers.filter (·.2.key = key)).getLast?.map (·.1)).or env.bindings[key]? := by
  induction offers generalizing env with
  | nil => rfl
  | cons offer offers ih =>
    rw [Env.insertAll, List.foldl_cons, ← Env.insertAll, ih, Env.bindings_insert, TreeMap.get_insert]
    by_cases h : offer.2.key = key
    · rw [if_pos h, List.filter_cons_of_pos (by simpa using h), List.getLast?_cons]
      cases (offers.filter (·.2.key = key)).getLast? <;> rfl
    · rw [if_neg h, List.filter_cons_of_neg (by simpa using h)]

theorem overridesAt_insertAll (offers : List (Str × EnvProvenance)) :
    (env.insertAll kind offers).overridesAt key = env.overridesAt key ++
      losses kind env.provenance[key]? ((offers.filter (·.2.key = key)).map (·.2)) := by
  induction offers generalizing env with
  | nil =>
    rw [List.filter_nil, List.map_nil, losses_nil, List.append_nil]
    rfl
  | cons offer offers ih =>
    rw [Env.insertAll, List.foldl_cons, ← Env.insertAll, ih]
    unfold Env.overridesAt Env.insert
    rw [List.filter_append, TreeMap.get_insert, List.append_assoc]
    congr 1
    by_cases h : offer.2.key = key
    · rw [if_pos h, List.filter_cons_of_pos (by simpa using h), List.map_cons, losses_cons, ← h]
      congr 1
      exact List.filter_eq_self.mpr fun o ho => by
        obtain ⟨p, -, rfl⟩ := List.mem_map.mp ho
        simp
    · rw [if_neg h, List.filter_cons_of_neg (by simpa using h)]
      rw [List.filter_eq_nil_iff.mpr, List.nil_append]
      intro o ho
      obtain ⟨p, -, rfl⟩ := List.mem_map.mp ho
      simpa using h

end Insertions

/-! ## A pass over the aliases -/

section Pass

variable (env : Env) (source : EnvSource) (aliasFor : Str → Option Str) (key : Str)

/-- The value that a binding offers for `key` as its alias. -/
def Env.aliasAt : Str × Str → Option (Str × EnvProvenance)
  | (origin, value) =>
    if aliasFor origin = some key then
      (env.provenance[origin]?).map fun p => (value, aliasProvenance source key p)
    else none

/-- The values that are offered for `key` by its aliases. -/
def Env.aliases (order : Order (Str × Str)) : List (Str × EnvProvenance) :=
  (order.1 env.bindings.toList).filterMap (env.aliasAt source aliasFor key)

/-- A free key is given every value that is offered. -/
private theorem getRight?_selectAlias (e : Str × Str) :
    ((env.selectAlias source aliasFor e).bind Sum.getRight?).filter (·.2.key = key) =
      if env.provenance[key]?.isSome then none else env.aliasAt source aliasFor key e := by
  obtain ⟨origin, value⟩ := e
  cases halias : aliasFor origin with
  | none => simp [Env.selectAlias, Env.aliasAt, halias]
  | some alias_ =>
    cases horigin : env.provenance[origin]? with
    | none => simp [Env.selectAlias, Env.aliasAt, halias, horigin]
    | some p =>
      by_cases hkey : alias_ = key
      · subst hkey
        cases hbound : env.provenance[alias_]? with
        | none =>
          simp [Env.selectAlias, Env.aliasAt, halias, horigin, hbound, aliasProvenance]
        | some w => simp [Env.selectAlias, halias, horigin, hbound]
      · have hnot : env.aliasAt source aliasFor key (origin, value) = none := by
          simp [Env.aliasAt, halias, hkey]
        rw [hnot, ite_self]
        cases hbound : env.provenance[alias_]? with
        | none => simp [Env.selectAlias, halias, horigin, hbound, aliasProvenance, hkey]
        | some w => simp [Env.selectAlias, halias, horigin, hbound]

/-- A key that is bound overrides every value that is offered. -/
private theorem getLeft?_selectAlias (e : Str × Str) :
    ((env.selectAlias source aliasFor e).bind Sum.getLeft?).filter (·.key = key) =
      (env.provenance[key]?).bind fun winner =>
        (env.aliasAt source aliasFor key e).map fun offer =>
          { key, kind := .aliasCollision, overridden := offer.2, winner } := by
  obtain ⟨origin, value⟩ := e
  cases halias : aliasFor origin with
  | none => simp [Env.selectAlias, Env.aliasAt, halias]
  | some alias_ =>
    cases horigin : env.provenance[origin]? with
    | none => simp [Env.selectAlias, Env.aliasAt, halias, horigin]
    | some p =>
      by_cases hkey : alias_ = key
      · subst hkey
        cases hbound : env.provenance[alias_]? with
        | none => simp [Env.selectAlias, halias, horigin, hbound]
        | some w => simp [Env.selectAlias, Env.aliasAt, halias, horigin, hbound]
      · have hnot : env.aliasAt source aliasFor key (origin, value) = none := by
          simp [Env.aliasAt, halias, hkey]
        rw [hnot]
        cases hbound : env.provenance[alias_]? with
        | none => simp [Env.selectAlias, halias, horigin, hbound]
        | some w => simp [Env.selectAlias, halias, horigin, hbound, hkey]

variable (order : Order (Str × Str))

/-- The environment of a pass after its collisions. -/
private def collided : Env :=
  let selected := (order.1 env.bindings.toList).filterMap (env.selectAlias source aliasFor)
  { env with overrides := env.overrides ++ selected.filterMap Sum.getLeft? }

private theorem addAliases_eq :
    env.addAliases order source aliasFor = (collided env source aliasFor order).insertAll
      .aliasCollision (((order.1 env.bindings.toList).filterMap
        (env.selectAlias source aliasFor)).filterMap Sum.getRight?) := rfl

private theorem filter_additions :
    (((order.1 env.bindings.toList).filterMap (env.selectAlias source aliasFor)).filterMap
      Sum.getRight?).filter (·.2.key = key) =
      if env.provenance[key]?.isSome then [] else env.aliases source aliasFor key order := by
  rw [List.filterMap_filterMap, List.filter_filterMap]
  simp only [getRight?_selectAlias]
  split
  · simp
  · rfl

/-- What is bound stays, and a free key gets the last value that is offered. -/
theorem provenance_addAliases :
    (env.addAliases order source aliasFor).provenance[key]? =
      (env.provenance[key]?).or ((env.aliases source aliasFor key order).getLast?.map (·.2)) := by
  rw [addAliases_eq, provenance_insertAll, filter_additions]
  change (Option.map _ _).or env.provenance[key]? = _
  cases env.provenance[key]? with
  | none => simp
  | some p => simp

theorem isSome_bindings_iff : env.bindings[key]?.isSome = env.provenance[key]?.isSome := by
  rw [Bool.eq_iff_iff, ← Std.ExtTreeMap.mem_iff_isSome_getElem?,
    ← Std.ExtTreeMap.mem_iff_isSome_getElem?, env.same key]

theorem bindings_addAliases :
    (env.addAliases order source aliasFor).bindings[key]? =
      (env.bindings[key]?).or ((env.aliases source aliasFor key order).getLast?.map (·.1)) := by
  rw [addAliases_eq, bindings_insertAll, filter_additions, ← isSome_bindings_iff]
  change (Option.map _ _).or env.bindings[key]? = _
  cases env.bindings[key]? with
  | none => simp
  | some p => simp

theorem overridesAt_addAliases :
    (env.addAliases order source aliasFor).overridesAt key = env.overridesAt key ++
      match env.provenance[key]? with
      | some winner => (env.aliases source aliasFor key order).map fun offer =>
          { key, kind := .aliasCollision, overridden := offer.2, winner }
      | none => losses .aliasCollision none ((env.aliases source aliasFor key order).map (·.2)) := by
  have hleft : (collided env source aliasFor order).overridesAt key = env.overridesAt key ++
      (order.1 env.bindings.toList).filterMap fun e => (env.provenance[key]?).bind fun winner =>
        (env.aliasAt source aliasFor key e).map fun offer =>
          { key, kind := .aliasCollision, overridden := offer.2, winner } := by
    unfold collided Env.overridesAt
    rw [List.filter_append, List.filterMap_filterMap, List.filter_filterMap]
    simp only [getLeft?_selectAlias]
  rw [addAliases_eq, overridesAt_insertAll, filter_additions, hleft]
  change _ ++ losses _ env.provenance[key]? _ = _
  cases env.provenance[key]? with
  | none => simp
  | some p => simp [Env.aliases, List.map_filterMap]

end Pass

/-! ## The layers -/

section Layers

variable (personal team : HashMap Str) (system : SystemEnvContext) (key : Str)

/-- The values that the layers give for a key, the highest layer last. -/
def layersOf : List (Str × EnvProvenance) :=
  (personal[key]?).toList.map (·, directProvenance key .personal .personal) ++
    ((team[key]?).toList.map (·, directProvenance key .team .team) ++
      ((systemBindings system).lookup key).toList.map (·, directProvenance key .system .system))

theorem nodup_systemBindings : ((systemBindings system).map (·.1)).Nodup := by
  unfold systemBindings
  rcases system with ⟨actorId, displayName, gatewayToken⟩
  cases h : gatewayToken.filter (· ≠ []) <;> by_cases hactor : actorId = [] <;>
    by_cases hname : displayName = [] <;> simp [hactor, hname]

/-- The values of a layer, as they are inserted. -/
private def layer (scope : EnvScope) (source : EnvSource) (e : Str × Str) : Str × EnvProvenance :=
  (e.2, directProvenance e.1 scope source)

private theorem filter_layer (scope : EnvScope) (source : EnvSource) {entries : List (Str × Str)}
    {found : Option Str} (h : entries.filter (·.1 = key) = found.toList.map (key, ·)) :
    (entries.map (layer scope source)).filter (·.2.key = key) =
      found.toList.map (·, directProvenance key scope source) := by
  have hcomp : (entries.filter fun e => (layer scope source e).2.key = key) =
      found.toList.map (key, ·) := h
  rw [List.filter_map]
  change (entries.filter fun e => (layer scope source e).2.key = key).map _ = _
  rw [hcomp, List.map_map]
  rfl

variable (orders : Orders)

private theorem layered_eq : layered orders personal team system =
    ((Env.ofPersonal personal).insertAll .layer
      ((orders.team.1 team.toList).map (layer .team .team))).insertAll .layer
        ((systemBindings system).map (layer .system .system)) := by
  unfold layered Env.insertAll
  rw [List.foldl_map, List.foldl_map]
  rfl

private theorem filter_team : ((orders.team.1 team.toList).map (layer .team .team)).filter
    (·.2.key = key) = (team[key]?).toList.map (·, directProvenance key .team .team) :=
  filter_layer key .team .team
    (TreeMap.filter_of_perm_toList (orders.team.2 team.toList) key)

private theorem filter_system : ((systemBindings system).map (layer .system .system)).filter
    (·.2.key = key) = ((systemBindings system).lookup key).toList.map
      (·, directProvenance key .system .system) :=
  filter_layer key .system .system (Assoc.filter_eq_lookup (nodup_systemBindings system) key)

private theorem provenance_ofPersonal : (Env.ofPersonal personal).provenance[key]? =
    (personal[key]?).map fun _ => directProvenance key .personal .personal :=
  Std.ExtTreeMap.getElem?_map

/-- The provenance of a key is that of its highest layer. -/
theorem provenance_layered : (layered orders personal team system).provenance[key]? =
    (layersOf personal team system key).getLast?.map (·.2) := by
  rw [layered_eq, provenance_insertAll, provenance_insertAll, filter_team, filter_system,
    provenance_ofPersonal, layersOf]
  cases (systemBindings system).lookup key <;> cases team[key]? <;> cases personal[key]? <;> rfl

/-- The value of a key is that of its highest layer. -/
theorem bindings_layered : (layered orders personal team system).bindings[key]? =
    (layersOf personal team system key).getLast?.map (·.1) := by
  rw [layered_eq, bindings_insertAll, bindings_insertAll, filter_team, filter_system, layersOf]
  change Option.or _ (Option.or _ personal[key]?) = _
  cases (systemBindings system).lookup key <;> cases team[key]? <;> cases personal[key]? <;> rfl

/-- Each layer overrides the one below it. -/
theorem overridesAt_layered : (layered orders personal team system).overridesAt key =
    losses .layer none ((layersOf personal team system key).map (·.2)) := by
  rw [layered_eq, overridesAt_insertAll, overridesAt_insertAll, provenance_insertAll, filter_team,
    filter_system, provenance_ofPersonal, layersOf]
  change [] ++ _ ++ _ = _
  cases (systemBindings system).lookup key <;> cases team[key]? <;> cases personal[key]? <;> rfl

end Layers

end TeamClu.RuntimeEnv
