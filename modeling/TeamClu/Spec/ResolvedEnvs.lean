import TeamClu.Spec.EnvPasses

/-!
# Resolution does not depend on the order of a map

Where no two keys in use have the same upper-case alias, no two of them and of these aliases have the
same dot-free alias, and no key is given by all three layers, the resolved environment is the same in
whatever order the maps are iterated over, and every value that lost names the one that won.  In any
other case one of the two fails: of two keys with one alias the one that is iterated over last wins.

## Key results

- `fingerprint_eq_iff`: equal fingerprints are fingerprints of equal bindings
- `lost_perm`: what is offered for a key is bound or overridden
- `resolves_iff`: exactly when the resolution is what it is meant to be
- `foo_or_Foo`: two keys with one alias
-/

namespace TeamClu.RuntimeEnv

open StableSort

/-! ## What is asked of the resolution -/

section Asked

variable (personal team : HashMap Str) (system : SystemEnvContext)

/-- The value of a key that is given explicitly, from the highest layer. -/
def explicitValue (key : Str) : Option Str :=
  ((systemBindings system).lookup key).or ((team[key]?).or personal[key]?)

/-- A key that is given explicitly. -/
def IsExplicit (key : Str) : Prop := (explicitValue personal team system key).isSome

/-- An explicit key, or the upper-case alias of one. -/
def IsNamed (key : Str) : Prop :=
  IsExplicit personal team system key ∨
    ∃ origin, IsExplicit personal team system origin ∧ upperAlias origin = some key

/-- The aliases that bindings with this provenance offer for a key. -/
def aliasOffers (provenance : List EnvProvenance) (key : Str) : List EnvProvenance :=
  (provenance.filter (·.aliasOf = none)).filterMap (aliasOffer .uppercaseAlias upperAlias key) ++
    (provenance.filter (·.source ≠ .dotFreeAlias)).filterMap
      (aliasOffer .dotFreeAlias dotFreeAlias key)

/-- No key and no value is longer than a `u64` counts. -/
def Fits (bindings : HashMap Str) : Prop :=
  ∀ (key value : Str), bindings[key]? = some value →
    Str.utf8Len key < 2 ^ 64 ∧ Str.utf8Len value < 2 ^ 64

/-- What the resolution of three layers is meant to be. -/
structure Resolves {δ : Type} (sha256 : List UInt8 → δ) (hkdf : δ → Str) : Prop where
  independent : ∀ orders orders' : Orders,
    let snapshot := resolveRuntimeEnv sha256 hkdf orders personal team system
    let snapshot' := resolveRuntimeEnv sha256 hkdf orders' personal team system
    snapshot.bindings = snapshot'.bindings ∧ snapshot.provenance = snapshot'.provenance ∧
      snapshot.overrides = snapshot'.overrides
  fingerprint : ∀ (order order' : Order (Str × Str)) (bindings bindings' : HashMap Str),
    Fits bindings → Fits bindings' →
      (fingerprintBindings sha256 hkdf order bindings =
        fingerprintBindings sha256 hkdf order' bindings' ↔ bindings = bindings')
  explicit : ∀ (orders : Orders) (key value : Str),
    explicitValue personal team system key = some value →
      (resolveRuntimeEnv sha256 hkdf orders personal team system).bindings[key]? = some value
  aliased : ∀ (orders : Orders) (key value : Str),
    let snapshot := resolveRuntimeEnv sha256 hkdf orders personal team system
    snapshot.bindings[key]? = some value → ¬ IsExplicit personal team system key →
      ∃ p ∈ snapshot.provenance, ∃ origin ∈ snapshot.provenance, p.key = key ∧
        p.aliasOf = some origin.key ∧ p.scope = origin.scope ∧
        (p.source = .uppercaseAlias ∧ upperAlias origin.key = some key ∨
          p.source = .dotFreeAlias ∧ dotFreeAlias origin.key = some key) ∧
        snapshot.bindings[origin.key]? = some value
  onePerBinding : ∀ orders : Orders,
    let snapshot := resolveRuntimeEnv sha256 hkdf orders personal team system
    (snapshot.provenance.map (·.key)).Perm snapshot.bindings.keys
  lost : ∀ (orders : Orders) (key : Str),
    let snapshot := resolveRuntimeEnv sha256 hkdf orders personal team system
    key ∈ snapshot.bindings → ∃ winner ∈ snapshot.provenance, winner.key = key ∧
      ((snapshot.overrides.filter (·.key = key)).map (·.overridden) ++ [winner]).Perm
        ((layersOf personal team system key).map (·.2) ++ aliasOffers snapshot.provenance key)
  trueWinner : ∀ orders : Orders,
    let snapshot := resolveRuntimeEnv sha256 hkdf orders personal team system
    ∀ o ∈ snapshot.overrides, o.winner ∈ snapshot.provenance ∧ o.winner.key = o.key

/-- No two keys in use have one alias, and no key is given by all three layers. -/
structure NoClashes : Prop where
  uppercase : ∀ k k', IsExplicit personal team system k → IsExplicit personal team system k' →
    ∀ alias_, upperAlias k = some alias_ → upperAlias k' = some alias_ → k = k'
  dotFree : ∀ k k', IsNamed personal team system k → IsNamed personal team system k' →
    ∀ alias_, dotFreeAlias k = some alias_ → dotFreeAlias k' = some alias_ → k = k'
  layers : ∀ key : Str, ¬ (key ∈ personal ∧ key ∈ team ∧
    ((systemBindings system).lookup key).isSome)

end Asked

/-! ## The fingerprint -/

theorem length_toBeBytes (n : Nat) : (toBeBytes n).length = 8 := rfl

/-- Eight bytes are enough for a `u64`. -/
theorem toBeBytes_injective {n m : Nat} (hn : n < 2 ^ 64) (hm : m < 2 ^ 64)
    (h : toBeBytes n = toBeBytes m) : n = m := by
  have hbyte (i : Nat) (hi : i < 8) : n / 256 ^ (7 - i) % 256 = m / 256 ^ (7 - i) % 256 := by
    have hget := congrArg (fun l => (l[i]?).map UInt8.toNat) h
    simpa [toBeBytes, hi] using hget
  -- from the highest byte down, what is above each byte is the same
  have habove (j : Nat) (hj : j ≤ 8) : n / 256 ^ (8 - j) = m / 256 ^ (8 - j) := by
    induction j with
    | zero => rw [Nat.div_eq_of_lt (by simpa using hn), Nat.div_eq_of_lt (by simpa using hm)]
    | succ j ih =>
      have hnext := ih (by omega)
      have hmod := hbyte j (by omega)
      have hpow : 256 ^ (8 - j) = 256 ^ (7 - j) * 256 := by
        rw [← Nat.pow_succ]
        congr 1
        omega
      rw [hpow, ← Nat.div_div_eq_div_mul, ← Nat.div_div_eq_div_mul] at hnext
      have hexp : 8 - (j + 1) = 7 - j := by omega
      rw [hexp]
      omega
  simpa using habove 8 (Nat.le_refl 8)

/-- The bytes of entries determine them. -/
theorem entries_eq_of_bytes {l l' : List (Str × Str)}
    (hl : ∀ e ∈ l, Str.utf8Len e.1 < 2 ^ 64 ∧ Str.utf8Len e.2 < 2 ^ 64)
    (hl' : ∀ e ∈ l', Str.utf8Len e.1 < 2 ^ 64 ∧ Str.utf8Len e.2 < 2 ^ 64)
    (h : l.flatMap entryBytes = l'.flatMap entryBytes) : l = l' := by
  have hpos (e : Str × Str) (rest : List UInt8) : entryBytes e ++ rest ≠ [] := by
    obtain ⟨key, value⟩ := e
    intro hnil
    have hlen := congrArg List.length hnil
    simp [entryBytes, length_toBeBytes] at hlen
  induction l generalizing l' with
  | nil =>
    cases l' with
    | nil => rfl
    | cons e' l' => exact absurd h.symm (hpos e' _)
  | cons e l ih =>
    cases l' with
    | nil => exact absurd h (hpos e _)
    | cons e' l' =>
      obtain ⟨key, value⟩ := e
      obtain ⟨key', value'⟩ := e'
      rw [List.forall_mem_cons] at hl hl'
      simp only [List.flatMap_cons, entryBytes, List.append_assoc] at h
      -- the length is read first, so the key that follows is known, and then the value
      obtain ⟨hlen, h⟩ := List.append_inj h rfl
      have hkey := toBeBytes_injective hl.1.1 hl'.1.1 hlen
      obtain ⟨hbytes, h⟩ := List.append_inj h (by rw [Str.length_utf8, Str.length_utf8, hkey])
      obtain ⟨hlen, h⟩ := List.append_inj h rfl
      have hvalue := toBeBytes_injective hl.1.2 hl'.1.2 hlen
      obtain ⟨hbytes', h⟩ := List.append_inj h (by rw [Str.length_utf8, Str.length_utf8, hvalue])
      rw [Str.utf8_injective hbytes, Str.utf8_injective hbytes', ih hl.2 hl'.2 h]

/-- The entries in the order of their keys are those of the map. -/
private theorem mem_sorted {order : Order (Str × Str)} {bindings : HashMap Str} {e : Str × Str} :
    e ∈ (order.1 bindings.toList).mergeSort (keyLe (·.1)) ↔ bindings[e.1]? = some e.2 :=
  ((List.mergeSort_perm _ _).trans (order.2 bindings.toList)).mem_iff.trans TreeMap.mem_toList

/-- Bindings have one fingerprint, and different bindings have different ones. -/
theorem fingerprint_eq_iff {δ : Type} {sha256 : List UInt8 → δ} {hkdf : δ → Str}
    (hsha : Function.Injective sha256) (hhkdf : Function.Injective hkdf)
    {order order' : Order (Str × Str)} {bindings bindings' : HashMap Str} (hfits : Fits bindings)
    (hfits' : Fits bindings') : fingerprintBindings sha256 hkdf order bindings =
      fingerprintBindings sha256 hkdf order' bindings' ↔ bindings = bindings' := by
  unfold fingerprintBindings
  rw [hhkdf.eq_iff, hsha.eq_iff]
  constructor
  · intro h
    have hentries := entries_eq_of_bytes (fun e he => hfits _ _ (mem_sorted.mp he))
      (fun e he => hfits' _ _ (mem_sorted.mp he)) h
    refine Std.ExtTreeMap.ext_getElem? fun key => Option.ext fun value => ?_
    have hmem := congrArg ((key, value) ∈ ·) hentries
    simpa only [mem_sorted, eq_iff_iff] using hmem
  · rintro rfl
    have hsorted : (order.1 bindings.toList).mergeSort (keyLe (·.1)) =
        (order'.1 bindings.toList).mergeSort (keyLe (·.1)) := by
      refine mergeSort_eq_of_perm ((order.2 _).trans (order'.2 _).symm) ?_
      refine ((order.2 _).map _).nodup_iff.mpr ?_
      rw [Std.ExtTreeMap.map_fst_toList_eq_keys]
      exact Std.ExtTreeMap.nodup_keys
    rw [hsorted]

/-! ## The environment before it is sorted -/

section Resolution

variable (personal team : HashMap Str) (system : SystemEnvContext) (orders : Orders)

/-- The layers and their upper-case aliases. -/
def named : Env :=
  (layered orders personal team system).addAliases orders.uppercase .uppercaseAlias upperAlias

/-- The layers and all aliases. -/
def resolved : Env :=
  (named personal team system orders).addAliases orders.dotFree .dotFreeAlias dotFreeAlias

variable {personal team system orders}

/-- The value of the highest layer. -/
theorem explicitValue_eq (orders : Orders) (key : Str) : explicitValue personal team system key =
    (layered orders personal team system).bindings[key]? := by
  rw [bindings_layered, layersOf, explicitValue]
  cases (systemBindings system).lookup key <;> cases team[key]? <;> cases personal[key]? <;> rfl

theorem isExplicit_iff (orders : Orders) {key : Str} : IsExplicit personal team system key ↔
    key ∈ (layered orders personal team system).bindings := by
  rw [IsExplicit, explicitValue_eq orders, Std.ExtTreeMap.mem_iff_isSome_getElem?]

/-- The keys after the first pass. -/
theorem isNamed_iff (orders : Orders) {key : Str} : IsNamed personal team system key ↔
    key ∈ (named personal team system orders).bindings := by
  constructor
  · rintro (h | ⟨origin, horigin, halias⟩)
    · obtain ⟨value, hvalue⟩ := mem_bindings_iff.mp ((isExplicit_iff orders).mp h)
      exact mem_bindings_iff.mpr ⟨value, bindings_addAliases_of_some hvalue⟩
    · have hmem := (isExplicit_iff orders).mp horigin
      obtain ⟨value, hvalue⟩ := mem_bindings_iff.mp hmem
      obtain ⟨p, hp⟩ := Option.isSome_iff_exists.mp
        (Std.ExtTreeMap.mem_iff_isSome_getElem?.mp ((Env.same _ _).mp hmem))
      obtain rfl := Env.keyed _ _ _ hp
      have hoffer : (value, aliasProvenance .uppercaseAlias key p) ∈
          (layered orders personal team system).aliases .uppercaseAlias upperAlias key
            orders.uppercase := mem_aliases.mpr ⟨p, halias, hvalue, hp, rfl⟩
      rw [Std.ExtTreeMap.mem_iff_isSome_getElem?, named, bindings_addAliases, Option.isSome_or,
        Option.isSome_map, Bool.or_eq_true, List.getLast?_isSome]
      exact .inr (List.ne_nil_of_mem hoffer)
  · intro h
    obtain ⟨value, hvalue⟩ := mem_bindings_iff.mp h
    cases hlayered : (layered orders personal team system).bindings[key]? with
    | some v => exact .inl ((isExplicit_iff orders).mpr (mem_bindings_iff.mpr ⟨v, hlayered⟩))
    | none =>
      obtain ⟨p, halias, hbound, -, -⟩ := aliased_addAliases hlayered hvalue
      exact .inr ⟨p.key, (isExplicit_iff orders).mpr (mem_bindings_iff.mpr ⟨value, hbound⟩),
        halias⟩

/-- A value of a layer is no alias. -/
theorem aliasOf_layered {key : Str} {p : EnvProvenance}
    (h : (layered orders personal team system).provenance[key]? = some p) :
    p.aliasOf = none ∧ p.source ≠ .dotFreeAlias := by
  rw [provenance_layered, Option.map_eq_some_iff] at h
  obtain ⟨offer, hlast, rfl⟩ := h
  have hmem := List.mem_of_getLast? hlast
  simp only [layersOf, List.mem_append, List.mem_map] at hmem
  rcases hmem with ⟨v, -, rfl⟩ | ⟨v, -, rfl⟩ | ⟨v, -, rfl⟩ <;> exact ⟨rfl, by simp [directProvenance]⟩

/-- The explicit keys are those that are no alias. -/
theorem provenance_explicit_iff {key : Str} {p : EnvProvenance} :
    ((resolved personal team system orders).provenance[key]? = some p ∧ p.aliasOf = none) ↔
      (layered orders personal team system).provenance[key]? = some p := by
  constructor
  · rintro ⟨h, hnone⟩
    rcases eq_or_alias_of_addAliases h with h | ⟨origin, rfl⟩
    · rcases eq_or_alias_of_addAliases h with h | ⟨origin, rfl⟩
      · exact h
      · cases hnone
    · cases hnone
  · exact fun h => ⟨provenance_addAliases_of_some (provenance_addAliases_of_some h),
      (aliasOf_layered h).1⟩

/-- The keys of the first pass are those that are no dot-free alias. -/
theorem provenance_named_iff {key : Str} {p : EnvProvenance} :
    ((resolved personal team system orders).provenance[key]? = some p ∧ p.source ≠ .dotFreeAlias) ↔
      (named personal team system orders).provenance[key]? = some p := by
  constructor
  · rintro ⟨h, hne⟩
    rcases eq_or_alias_of_addAliases h with h | ⟨origin, rfl⟩
    · exact h
    · exact absurd rfl hne
  · intro h
    refine ⟨provenance_addAliases_of_some h, ?_⟩
    rcases eq_or_alias_of_addAliases h with h | ⟨origin, rfl⟩
    · exact (aliasOf_layered h).2
    · simp [aliasProvenance]

/-! ## The snapshot -/

variable {δ : Type} (sha256 : List UInt8 → δ) (hkdf : δ → Str) (personal team system orders)

private theorem provenance_resolve_perm :
    (resolveRuntimeEnv sha256 hkdf orders personal team system).provenance.Perm
      ((resolved personal team system orders).provenance.toList.map (·.2)) :=
  (List.mergeSort_perm _ _).trans ((orders.values.2 _).map _)

variable {sha256 hkdf personal team system orders} in
/-- The provenance of the snapshot is that of its keys. -/
theorem mem_provenance_resolve {p : EnvProvenance} :
    p ∈ (resolveRuntimeEnv sha256 hkdf orders personal team system).provenance ↔
      (resolved personal team system orders).provenance[p.key]? = some p := by
  rw [(provenance_resolve_perm personal team system orders sha256 hkdf).mem_iff, List.mem_map]
  simp only [Prod.exists, TreeMap.mem_toList]
  constructor
  · rintro ⟨key, q, hq, rfl⟩
    rwa [Env.keyed _ _ _ hq]
  · exact fun h => ⟨p.key, p, h, rfl⟩

private theorem nodup_provenance_resolve :
    ((resolveRuntimeEnv sha256 hkdf orders personal team system).provenance.map (·.key)).Nodup := by
  rw [((provenance_resolve_perm personal team system orders sha256 hkdf).map _).nodup_iff, map_key_provenance]
  exact Std.ExtTreeMap.nodup_keys

/-- The overrides of a key, in the snapshot. -/
theorem filter_overrides_resolve (key : Str) :
    (resolveRuntimeEnv sha256 hkdf orders personal team system).overrides.filter (·.key = key) =
      (resolved personal team system orders).overridesAt key := by
  have hsorted : ((resolved personal team system orders).overrides.mergeSort
      (keyLe (·.key))).filter (·.key = key) =
        (resolved personal team system orders).overrides.filter (·.key = key) := by
    convert filter_mergeSort (resolved personal team system orders).overrides key
  exact hsorted

variable {sha256 hkdf personal team system orders} in
/-- The overrides of the snapshot are those of the environment. -/
theorem mem_overrides_resolve {o : EnvOverride} :
    o ∈ (resolveRuntimeEnv sha256 hkdf orders personal team system).overrides ↔
      o ∈ (resolved personal team system orders).overrides :=
  (List.mergeSort_perm _ _).mem_iff

/-- The part of the provenance that an earlier environment had. -/
private theorem filter_provenance_perm {env : Env} {q : EnvProvenance → Prop} [DecidablePred q]
    (h : ∀ (key : Str) (p : EnvProvenance),
      ((resolved personal team system orders).provenance[key]? = some p ∧ q p) ↔
        env.provenance[key]? = some p) :
    ((resolveRuntimeEnv sha256 hkdf orders personal team system).provenance.filter (q ·)).Perm
      (env.provenance.toList.map (·.2)) := by
  refine (List.perm_ext_iff_of_nodup ?_ ?_).mpr fun p => ?_
  · exact (List.Nodup.of_map _ (nodup_provenance_resolve personal team system orders sha256 hkdf)).filter _
  · refine List.Nodup.of_map (fun p : EnvProvenance => p.key) ?_
    rw [map_key_provenance]
    exact Std.ExtTreeMap.nodup_keys
  · rw [List.mem_filter, mem_provenance_resolve, decide_eq_true_eq, h, List.mem_map]
    simp only [Prod.exists, TreeMap.mem_toList]
    constructor
    · exact fun hp => ⟨p.key, p, hp, rfl⟩
    · rintro ⟨key, p', hp', rfl⟩
      rwa [Env.keyed _ _ _ hp']

/-- What is offered for a key is bound or overridden. -/
theorem lost_perm (key : Str) :
    (((resolved personal team system orders).overridesAt key).map (·.overridden) ++
      ((resolved personal team system orders).provenance[key]?).toList).Perm
    ((layersOf personal team system key).map (·.2) ++ aliasOffers
      (resolveRuntimeEnv sha256 hkdf orders personal team system).provenance key) := by
  have hlayers := map_overridden_losses .layer none ((layersOf personal team system key).map (·.2))
  rw [Option.or_none, List.getLast?_map, Option.toList_none, List.nil_append,
    ← overridesAt_layered personal team system key orders,
    ← provenance_layered personal team system key orders] at hlayers
  have hupper := ((filter_provenance_perm personal team system orders sha256 hkdf
    (fun _ _ => provenance_explicit_iff)).filterMap
      (aliasOffer .uppercaseAlias upperAlias key)).trans
        (@map_aliases_perm (layered orders personal team system) _ _ _ orders.uppercase).symm
  have hdotFree := ((filter_provenance_perm personal team system orders sha256 hkdf
    (fun _ _ => provenance_named_iff)).filterMap
      (aliasOffer .dotFreeAlias dotFreeAlias key)).trans
        (@map_aliases_perm (named personal team system orders) _ _ _ orders.dotFree).symm
  refine lost_addAliases.trans ((lost_addAliases.append_right _).trans ?_)
  rw [hlayers, List.append_assoc]
  exact (hupper.append hdotFree).symm.append_left _

end Resolution

/-! ## Exactly when it is right -/

section Exact

variable {personal team : HashMap Str} {system : SystemEnvContext}

/-- The layers do not depend on the order of the team map. -/
theorem agree_layered (orders orders' : Orders) :
    (layered orders personal team system).Agree (layered orders' personal team system) :=
  ⟨Std.ExtTreeMap.ext_getElem? fun key => by rw [bindings_layered, bindings_layered],
    Std.ExtTreeMap.ext_getElem? fun key => by rw [provenance_layered, provenance_layered],
    fun key => by rw [overridesAt_layered, overridesAt_layered]⟩

theorem NoClashes.layered (h : NoClashes personal team system) (orders : Orders) :
    (RuntimeEnv.layered orders personal team system).NoClash upperAlias := fun k k' hk hk' =>
  h.uppercase k k' ((isExplicit_iff orders).mpr hk) ((isExplicit_iff orders).mpr hk')

theorem NoClashes.named (h : NoClashes personal team system) (orders : Orders) :
    (RuntimeEnv.named personal team system orders).NoClash dotFreeAlias := fun k k' hk hk' =>
  h.dotFree k k' ((isNamed_iff orders).mpr hk) ((isNamed_iff orders).mpr hk')

/-- Without clashes the resolution does not depend on any order. -/
theorem NoClashes.agree (h : NoClashes personal team system) (orders orders' : Orders) :
    (resolved personal team system orders).Agree (resolved personal team system orders') :=
  ((agree_layered orders orders').addAliases (h.layered orders) _ _ _).addAliases (h.named orders) _ _ _

/-- Two layers at most give a key. -/
private theorem length_layersOf_le (h : NoClashes personal team system) (key : Str) :
    (layersOf personal team system key).length ≤ 2 := by
  have hkey := h.layers key
  rw [Std.ExtTreeMap.mem_iff_isSome_getElem?, Std.ExtTreeMap.mem_iff_isSome_getElem?] at hkey
  unfold layersOf
  cases hs : (systemBindings system).lookup key <;> cases ht : team[key]? <;>
    cases hp : personal[key]? <;> simp_all

/-- Without clashes every value that lost names what is bound. -/
theorem NoClashes.winners (h : NoClashes personal team system) (orders : Orders) :
    ∀ o ∈ (resolved personal team system orders).overrides,
      (resolved personal team system orders).provenance[o.key]? = some o.winner := by
  refine winners_addAliases (fun key => (h.named orders).length_aliases_le_one _ key _) ?_
  refine winners_addAliases (fun key => (h.layered orders).length_aliases_le_one _ key _) ?_
  intro o ho
  have hat : o ∈ (RuntimeEnv.layered orders personal team system).overridesAt o.key :=
    List.mem_filter.mpr ⟨ho, by simp⟩
  rw [overridesAt_layered] at hat
  have hlen : ((none : Option EnvProvenance).toList ++
      (layersOf personal team system o.key).map (·.2)).length ≤ 2 := by
    simpa using length_layersOf_le h o.key
  rw [provenance_layered, (winner_of_mem_losses hlen hat).1, Option.or_none, List.getLast?_map]

variable {δ : Type} {sha256 : List UInt8 → δ} {hkdf : δ → Str}

/-- Environments that agree are sorted to the same snapshot. -/
private theorem snapshot_eq {orders orders' : Orders}
    (h : (resolved personal team system orders).Agree (resolved personal team system orders')) :
    let snapshot := resolveRuntimeEnv sha256 hkdf orders personal team system
    let snapshot' := resolveRuntimeEnv sha256 hkdf orders' personal team system
    snapshot.bindings = snapshot'.bindings ∧ snapshot.provenance = snapshot'.provenance ∧
      snapshot.overrides = snapshot'.overrides := by
  have hperm : ((orders.values.1 (resolved personal team system orders).provenance.toList).map
      (·.2)).Perm ((orders'.values.1
        (resolved personal team system orders').provenance.toList).map (·.2)) := by
    rw [h.provenance]
    exact ((orders.values.2 _).trans (orders'.values.2 _).symm).map _
  have hnodup : (((orders.values.1 (resolved personal team system orders).provenance.toList).map
      (·.2)).map (·.key)).Nodup := by
    rw [(((orders.values.2 _).map _).map _).nodup_iff, map_key_provenance]
    exact Std.ExtTreeMap.nodup_keys
  have hoverrides : (resolved personal team system orders).overrides.mergeSort (keyLe (·.key)) =
      (resolved personal team system orders').overrides.mergeSort (keyLe (·.key)) :=
    mergeSort_eq_iff.mpr fun key => by
      have hkey := h.overrides key
      unfold Env.overridesAt at hkey
      convert hkey
  exact ⟨h.bindings, mergeSort_eq_of_perm hperm hnodup, hoverrides⟩

/-- Where an alias comes from, in the snapshot. -/
private theorem exists_origin {orders : Orders} {key value : Str} {p : EnvProvenance}
    {source : EnvSource}
    (halias : (resolved personal team system orders).provenance[key]? =
      some (aliasProvenance source key p))
    (hp : (resolved personal team system orders).provenance[p.key]? = some p)
    (hvalue : (resolved personal team system orders).bindings[p.key]? = some value)
    (hsource : source = .uppercaseAlias ∧ upperAlias p.key = some key ∨
      source = .dotFreeAlias ∧ dotFreeAlias p.key = some key) :
    let snapshot := resolveRuntimeEnv sha256 hkdf orders personal team system
    ∃ q ∈ snapshot.provenance, ∃ origin ∈ snapshot.provenance, q.key = key ∧
      q.aliasOf = some origin.key ∧ q.scope = origin.scope ∧
      (q.source = .uppercaseAlias ∧ upperAlias origin.key = some key ∨
        q.source = .dotFreeAlias ∧ dotFreeAlias origin.key = some key) ∧
      snapshot.bindings[origin.key]? = some value :=
  ⟨aliasProvenance source key p, mem_provenance_resolve.mpr halias, p,
    mem_provenance_resolve.mpr hp, rfl, rfl, rfl, hsource, hvalue⟩

/-- Without clashes the resolution is what it is meant to be. -/
theorem resolves_of_noClashes (hsha : Function.Injective sha256) (hhkdf : Function.Injective hkdf)
    (h : NoClashes personal team system) : Resolves personal team system sha256 hkdf where
  independent orders orders' := snapshot_eq (h.agree orders orders')
  fingerprint _ _ _ _ hfits hfits' := fingerprint_eq_iff hsha hhkdf hfits hfits'
  explicit orders key value hvalue := by
    rw [explicitValue_eq orders] at hvalue
    exact bindings_addAliases_of_some (bindings_addAliases_of_some hvalue)
  aliased orders key value := by
    intro snapshot hvalue hexplicit
    have hresolved : (resolved personal team system orders).bindings[key]? = some value := hvalue
    have hlayered : (layered orders personal team system).bindings[key]? = none := by
      rwa [IsExplicit, explicitValue_eq orders, Option.not_isSome_iff_eq_none] at hexplicit
    cases hnamed : (named personal team system orders).bindings[key]? with
    | some v =>
      have hv : some v = some value := by
        rw [← hresolved]
        exact (bindings_addAliases_of_some hnamed).symm
      rw [hv] at hnamed
      obtain ⟨p, halias, hbound, hp, hkey⟩ := aliased_addAliases hlayered hnamed
      exact exists_origin (provenance_addAliases_of_some hkey)
        (provenance_addAliases_of_some (provenance_addAliases_of_some hp))
        (bindings_addAliases_of_some (bindings_addAliases_of_some hbound)) (.inl ⟨rfl, halias⟩)
    | none =>
      obtain ⟨p, halias, hbound, hp, hkey⟩ := aliased_addAliases hnamed hresolved
      exact exists_origin hkey (provenance_addAliases_of_some hp)
        (bindings_addAliases_of_some hbound) (.inr ⟨rfl, halias⟩)
  onePerBinding orders := by
    intro snapshot
    have hperm : snapshot.provenance.Perm
        ((resolved personal team system orders).provenance.toList.map (·.2)) :=
      provenance_resolve_perm personal team system orders sha256 hkdf
    have hkeys := hperm.map (·.key)
    rw [map_key_provenance] at hkeys
    refine hkeys.trans ((List.perm_ext_iff_of_nodup Std.ExtTreeMap.nodup_keys
      Std.ExtTreeMap.nodup_keys).mpr fun key => ?_)
    rw [Std.ExtTreeMap.mem_keys, Std.ExtTreeMap.mem_keys]
    exact ((resolved personal team system orders).same key).symm
  lost orders key := by
    intro snapshot hmem
    have hbound : key ∈ (resolved personal team system orders).provenance := (Env.same _ _).mp hmem
    obtain ⟨winner, hwinner⟩ := Option.isSome_iff_exists.mp
      (Std.ExtTreeMap.mem_iff_isSome_getElem?.mp hbound)
    have hkey := Env.keyed _ _ _ hwinner
    refine ⟨winner, mem_provenance_resolve.mpr (hkey.symm ▸ hwinner), hkey, ?_⟩
    have hperm := lost_perm personal team system orders sha256 hkdf key
    rw [← filter_overrides_resolve personal team system orders sha256 hkdf, hwinner] at hperm
    exact hperm
  trueWinner orders := by
    intro snapshot o ho
    have hwinner := h.winners orders o (mem_overrides_resolve.mp ho)
    have hkey := Env.keyed _ _ _ hwinner
    exact ⟨mem_provenance_resolve.mpr (hkey.symm ▸ hwinner), hkey⟩

/-- Two orders with the same snapshot say the same of every key. -/
private theorem same_of_independent (h : Resolves personal team system sha256 hkdf)
    (orders orders' : Orders) (key : Str) :
    (resolved personal team system orders).provenance[key]? =
        (resolved personal team system orders').provenance[key]? ∧
      (resolved personal team system orders).overridesAt key =
        (resolved personal team system orders').overridesAt key := by
  obtain ⟨-, hprovenance, hoverrides⟩ := h.independent orders orders'
  constructor
  · have himp {o o' : Orders}
        (heq : (resolveRuntimeEnv sha256 hkdf o personal team system).provenance =
          (resolveRuntimeEnv sha256 hkdf o' personal team system).provenance) {p : EnvProvenance}
        (hp : (resolved personal team system o).provenance[key]? = some p) :
        (resolved personal team system o').provenance[key]? = some p := by
      obtain rfl := Env.keyed _ _ _ hp
      have hmem : p ∈ (resolveRuntimeEnv sha256 hkdf o personal team system).provenance :=
        mem_provenance_resolve.mpr hp
      rw [heq] at hmem
      exact mem_provenance_resolve.mp hmem
    exact Option.ext fun p => ⟨himp hprovenance, himp hprovenance.symm⟩
  · rw [← filter_overrides_resolve personal team system orders sha256 hkdf,
      ← filter_overrides_resolve personal team system orders' sha256 hkdf, hoverrides]

/-- The orders in which everything comes as it is. -/
def plainOrders : Orders where
  team := ⟨id, List.Perm.refl⟩
  uppercase := ⟨id, List.Perm.refl⟩
  dotFree := ⟨id, List.Perm.refl⟩
  entries := ⟨id, List.Perm.refl⟩
  values := ⟨id, List.Perm.refl⟩

/-- Where the resolution is what it is meant to be there is no clash. -/
theorem noClashes_of_resolves (h : Resolves personal team system sha256 hkdf) :
    NoClashes personal team system where
  uppercase k k' hk hk' alias_ halias halias' := by
    by_contra hne
    obtain ⟨hprovenance, hoverrides⟩ := same_of_independent h
      { plainOrders with uppercase := lastOrder k } { plainOrders with uppercase := lastOrder k' }
      alias_
    -- the second pass changes nothing for a key that is bound
    have hnamed (orders : Orders) : (resolved personal team system orders).provenance[alias_]? =
        (named personal team system orders).provenance[alias_]? := by
      have hbound : alias_ ∈ (named personal team system orders).provenance :=
        (Env.same _ _).mp ((isNamed_iff orders).mp (.inr ⟨k, hk, halias⟩))
      obtain ⟨p, hp⟩ := Option.isSome_iff_exists.mp
        (Std.ExtTreeMap.mem_iff_isSome_getElem?.mp hbound)
      rw [hp]
      exact provenance_addAliases_of_some hp
    rw [hnamed, hnamed] at hprovenance
    rw [resolved, resolved, overridesAt_addAliases, overridesAt_addAliases] at hoverrides
    exact clash hne halias halias' ((isExplicit_iff plainOrders).mp hk)
      ((isExplicit_iff plainOrders).mp hk') hprovenance _ _ hoverrides
  dotFree k k' hk hk' alias_ halias halias' := by
    by_contra hne
    obtain ⟨hprovenance, hoverrides⟩ := same_of_independent h
      { plainOrders with dotFree := lastOrder k } { plainOrders with dotFree := lastOrder k' } alias_
    have hbound := (isNamed_iff plainOrders).mp hk
    have hbound' := (isNamed_iff plainOrders).mp hk'
    exact clash hne halias halias' hbound hbound' hprovenance [] [] (congrArg (· ++ []) hoverrides)
  layers key hlayers := by
    obtain ⟨hpersonal, hteam, hsystem⟩ := hlayers
    obtain ⟨p, hp⟩ := Option.isSome_iff_exists.mp
      (Std.ExtTreeMap.mem_iff_isSome_getElem?.mp hpersonal)
    obtain ⟨t, ht⟩ := Option.isSome_iff_exists.mp (Std.ExtTreeMap.mem_iff_isSome_getElem?.mp hteam)
    obtain ⟨s, hs⟩ := Option.isSome_iff_exists.mp hsystem
    -- the override of the personal value names the team value, which lost to the system
    have hmem : (⟨key, .layer, directProvenance key .personal .personal,
        directProvenance key .team .team⟩ : EnvOverride) ∈
          (layered plainOrders personal team system).overridesAt key := by
      rw [overridesAt_layered, layersOf, hp, ht, hs]
      exact List.mem_cons_self
    have hresolved : _ ∈ (resolved personal team system plainOrders).overridesAt key :=
      mem_overridesAt_addAliases (mem_overridesAt_addAliases hmem)
    have hwinner := (h.trueWinner plainOrders _
      (mem_overrides_resolve.mpr (List.mem_filter.mp hresolved).1)).1
    have hteamBound := mem_provenance_resolve.mp hwinner
    have hlast : (layered plainOrders personal team system).provenance[key]? =
        some (directProvenance key .system .system) := by
      rw [provenance_layered, layersOf, hp, ht, hs]
      rfl
    have hsystemBound : (resolved personal team system plainOrders).provenance[key]? =
        some (directProvenance key .system .system) :=
      provenance_addAliases_of_some (provenance_addAliases_of_some hlast)
    have heq := Option.some.inj (hteamBound.symm.trans hsystemBound)
    cases congrArg EnvProvenance.scope heq

end Exact

/-- The resolution is what it is meant to be exactly when there is no clash. -/
theorem resolves_iff {δ : Type} {sha256 : List UInt8 → δ} {hkdf : δ → Str}
    (hsha : Function.Injective sha256) (hhkdf : Function.Injective hkdf)
    (personal team : HashMap Str) (system : SystemEnvContext) :
    Resolves personal team system sha256 hkdf ↔ NoClashes personal team system :=
  ⟨noClashes_of_resolves, resolves_of_noClashes hsha hhkdf⟩

/-! ## Two environments -/

/-- A digest that shows its input. -/
def plainDigest (bytes : List UInt8) : Str := bytes.map fun b => Char.ofNat b.toNat

private theorem plainDigest_injective : Function.Injective plainDigest := by
  refine List.map_injective_iff.mpr fun b b' h => ?_
  have hall : ∀ n : Fin 256, (Char.ofNat n).toNat = n := by decide +kernel
  have hb := hall ⟨b.toNat, b.toNat_lt⟩
  have hb' := hall ⟨b'.toNat, b'.toNat_lt⟩
  rw [← UInt8.toNat_inj]
  exact hb.symm.trans ((congrArg Char.toNat h).trans hb')

/-- A personal variable. -/
def onePersonal : HashMap Str := (∅ : HashMap Str).insert "foo".toList "1".toList

/-- A team variable with a dot. -/
def oneTeam : HashMap Str := (∅ : HashMap Str).insert "bar.url".toList "2".toList

/-- An actor. -/
def oneActor : SystemEnvContext :=
  { actorId := "a1".toList, displayName := [], gatewayToken := none }

/-- No actor. -/
def noActor : SystemEnvContext := { actorId := [], displayName := [], gatewayToken := none }

/-- Two personal variables with one upper-case alias. -/
def twoPersonal : HashMap Str := onePersonal.insert "Foo".toList "2".toList

/-- The explicit keys, and all names in use. -/
def oneKeys : List Str := ["foo".toList, "bar.url".toList, "actor_id".toList]

private theorem mem_oneKeys {k : Str} (h : IsExplicit onePersonal oneTeam oneActor k) :
    k ∈ oneKeys := by
  rw [IsExplicit, explicitValue, Option.isSome_or, Option.isSome_or, Bool.or_eq_true,
    Bool.or_eq_true] at h
  rcases h with h | h | h
  · have hsystem : systemBindings oneActor = [("actor_id".toList, "a1".toList)] := rfl
    rw [hsystem, List.lookup_cons] at h
    split at h
    · next heq => simp [oneKeys, eq_of_beq heq]
    · cases h
  · rw [oneTeam, TreeMap.get_insert] at h
    split at h
    · next heq => simp [oneKeys, ← heq]
    · simp at h
  · rw [onePersonal, TreeMap.get_insert] at h
    split at h
    · next heq => simp [oneKeys, ← heq]
    · simp at h

private theorem noClashes_one : NoClashes onePersonal oneTeam oneActor := by
  refine ⟨fun k k' hk hk' alias_ halias halias' => ?_, fun k k' hk hk' alias_ halias halias' => ?_,
    fun key h => ?_⟩
  · have hall : ∀ k ∈ oneKeys, ∀ k' ∈ oneKeys, upperAlias k = upperAlias k' → k = k' := by decide
    exact hall k (mem_oneKeys hk) k' (mem_oneKeys hk') (halias.trans halias'.symm)
  · have hnamed {k : Str} (h : IsNamed onePersonal oneTeam oneActor k) :
        k ∈ oneKeys ++ oneKeys.filterMap upperAlias := by
      rcases h with h | ⟨origin, horigin, halias⟩
      · exact List.mem_append_left _ (mem_oneKeys h)
      · exact List.mem_append_right _ (List.mem_filterMap.mpr ⟨origin, mem_oneKeys horigin, halias⟩)
    have hall : ∀ k ∈ oneKeys ++ oneKeys.filterMap upperAlias,
        ∀ k' ∈ oneKeys ++ oneKeys.filterMap upperAlias, (dotFreeAlias k).isSome →
          dotFreeAlias k = dotFreeAlias k' → k = k' := by decide
    exact hall k (hnamed hk) k' (hnamed hk') (by rw [halias]; rfl) (halias.trans halias'.symm)
  · obtain ⟨hpersonal, hteam, -⟩ := h
    simp only [onePersonal, oneTeam, Std.ExtTreeMap.mem_insert, Std.LawfulEqCmp.compare_eq_iff_eq,
      Std.ExtTreeMap.not_mem_empty, or_false] at hpersonal hteam
    rw [← hpersonal] at hteam
    revert hteam
    decide

/-- Three variables with different aliases are resolved. -/
theorem resolves_one : Resolves onePersonal oneTeam oneActor plainDigest id :=
  (resolves_iff plainDigest_injective Function.injective_id onePersonal oneTeam oneActor).mpr
    noClashes_one

/-- Of `foo` and `Foo` either gives the value of `FOO`. -/
theorem foo_or_Foo : ¬ Resolves twoPersonal ∅ noActor plainDigest id := fun h => by
  have hexplicit {k : Str} (hk : k = "foo".toList ∨ k = "Foo".toList) :
      IsExplicit twoPersonal ∅ noActor k := by
    have hmem : k ∈ twoPersonal := by
      rcases hk with rfl | rfl
      · exact Std.ExtTreeMap.mem_insert.mpr (.inr Std.ExtTreeMap.mem_insert_self)
      · exact Std.ExtTreeMap.mem_insert_self
    obtain ⟨v, hv⟩ := Option.isSome_iff_exists.mp (Std.ExtTreeMap.mem_iff_isSome_getElem?.mp hmem)
    simp [IsExplicit, explicitValue, hv]
  have heq := (noClashes_of_resolves h).uppercase _ _ (hexplicit (.inl rfl)) (hexplicit (.inr rfl))
    "FOO".toList rfl rfl
  revert heq
  decide

end TeamClu.RuntimeEnv
