import Mathlib.Data.Char
import Mathlib.Data.List.Lex
import TeamClu.ForStd.StableSort
import TeamClu.ForStd.TreeMap
import TeamClu.ForStd.Utf8

/-!
# The resolved environment of a runtime

Personal, team and system variables are merged into one environment, with where each binding comes
from and what it overrides (`resolve_runtime_env`), and the environment has a fingerprint
(`fingerprint_bindings`).  A hash map is its content; in which order it is iterated over is a
parameter of every iteration.

Not modelled: the proxy address of the system context, which nothing here reads, the list of
unresolved variables, which is empty here, and the locations that are filled in afterwards.
-/

namespace TeamClu.RuntimeEnv

/-- `HashMap<String, V>`: what is bound to each key. -/
abbrev HashMap (β : Type) := Std.ExtTreeMap Str β compare

/-- An order of iteration. -/
def Order (α : Type) : Type := { f : List α → List α // ∀ l, (f l).Perm l }

/-! ## Data -/

/-- `EnvScope`. -/
inductive EnvScope where
  | personal
  | team
  | system
  deriving DecidableEq, Repr

/-- `EnvSource`. -/
inductive EnvSource where
  | personal
  | team
  | system
  | uppercaseAlias
  | dotFreeAlias
  deriving DecidableEq, Repr

/-- `EnvProvenance`. -/
structure EnvProvenance where
  key : Str
  scope : EnvScope
  source : EnvSource
  aliasOf : Option Str
  location : Option Str
  deriving DecidableEq, Repr

/-- `EnvOverrideKind`. -/
inductive EnvOverrideKind where
  | layer
  | aliasCollision
  deriving DecidableEq, Repr

/-- `EnvOverride`. -/
structure EnvOverride where
  key : Str
  kind : EnvOverrideKind
  overridden : EnvProvenance
  winner : EnvProvenance
  deriving DecidableEq, Repr

/-- `SystemEnvContext`. -/
structure SystemEnvContext where
  actorId : Str
  displayName : Str
  gatewayToken : Option Str

/-- `ResolvedEnvSnapshot`. -/
structure ResolvedEnvSnapshot where
  bindings : HashMap Str
  fingerprint : Str
  provenance : List EnvProvenance
  overrides : List EnvOverride

/-! ## Inserting -/

/-- The three collections that resolution builds.  Every binding has provenance, so no `expect`
    fails. -/
structure Env where
  bindings : HashMap Str
  provenance : HashMap EnvProvenance
  overrides : List EnvOverride
  same : ∀ key : Str, key ∈ bindings ↔ key ∈ provenance
  keyed : ∀ (key : Str) (p : EnvProvenance), provenance[key]? = some p → p.key = key

/-- `direct_provenance`. -/
def directProvenance (key : Str) (scope : EnvScope) (source : EnvSource) : EnvProvenance :=
  { key, scope, source, aliasOf := none, location := none }

/-- The personal variables, with their provenance. -/
def Env.ofPersonal (personal : HashMap Str) : Env where
  bindings := personal
  provenance := personal.map fun key _ => directProvenance key .personal .personal
  overrides := []
  same key := Std.ExtTreeMap.mem_map.symm
  keyed key p h := by
    rw [Std.ExtTreeMap.getElem?_map, Option.map_eq_some_iff] at h
    obtain ⟨_, -, rfl⟩ := h
    rfl

/-- Bind a value under the key of its provenance; what was bound there is overridden. -/
def Env.insert (env : Env) (kind : EnvOverrideKind) (value : Str) (winner : EnvProvenance) : Env where
  bindings := env.bindings.insert winner.key value
  provenance := env.provenance.insert winner.key winner
  overrides := env.overrides ++ (env.provenance[winner.key]?).toList.map fun overridden =>
    { key := winner.key, kind, overridden, winner }
  same key := by rw [Std.ExtTreeMap.mem_insert, Std.ExtTreeMap.mem_insert, env.same key]
  keyed key p h := by
    rw [TreeMap.get_insert] at h
    split at h
    · next heq => rw [← heq, ← Option.some.inj h]
    · exact env.keyed key p h

/-- `insert_direct`. -/
def Env.insertDirect (env : Env) (key value : Str) (scope : EnvScope) (source : EnvSource) : Env :=
  env.insert .layer value (directProvenance key scope source)

/-! ## Aliases -/

/-- The provenance of an alias. -/
def aliasProvenance (source : EnvSource) (alias_ : Str) (origin : EnvProvenance) : EnvProvenance :=
  { key := alias_, scope := origin.scope, source, aliasOf := some origin.key,
    location := origin.location }

/-- What becomes of the alias of one binding: it collides with a key of the map as it is before the
    pass, or it is added. -/
def Env.selectAlias (env : Env) (source : EnvSource) (aliasFor : Str → Option Str) :
    Str × Str → Option (EnvOverride ⊕ Str × EnvProvenance)
  | (key, value) => do
    let alias_ ← aliasFor key
    let origin ← env.provenance[key]?
    let aliased := aliasProvenance source alias_ origin
    match env.provenance[alias_]? with
    | some winner =>
      some (.inl { key := alias_, kind := .aliasCollision, overridden := aliased, winner })
    | none => some (.inr (value, aliased))

/-- `add_aliases`: aliases are selected against the map before the pass, then inserted. -/
def Env.addAliases (env : Env) (order : Order (Str × Str)) (source : EnvSource)
    (aliasFor : Str → Option Str) : Env :=
  let selected := (order.1 env.bindings.toList).filterMap (env.selectAlias source aliasFor)
  let collided := { env with overrides := env.overrides ++ selected.filterMap Sum.getLeft? }
  (selected.filterMap Sum.getRight?).foldl
    (fun env (value, winner) => env.insert .aliasCollision value winner) collided

/-- The upper-case alias of a key. -/
def upperAlias (key : Str) : Option Str :=
  let alias_ := key.map Char.toUpper
  if alias_ ≠ key then some alias_ else none

/-- The dot-free alias of a key. -/
def dotFreeAlias (key : Str) : Option Str :=
  if '.' ∈ key then some (key.map fun c => if c = '.' then '_' else c) else none

/-! ## Resolution -/

/-- The variables of the system, where they are given. -/
def systemBindings (system : SystemEnvContext) : List (Str × Str) :=
  (if system.actorId ≠ [] then [("actor_id".toList, system.actorId)] else []) ++
  ((system.gatewayToken.filter (· ≠ [])).toList.map fun token => ("tc_gateway_token".toList, token)) ++
  (if system.displayName ≠ [] then [("display_name".toList, system.displayName)] else [])

/-- The orders of the iterations of one resolution. -/
structure Orders where
  team : Order (Str × Str)
  uppercase : Order (Str × Str)
  dotFree : Order (Str × Str)
  entries : Order (Str × Str)
  values : Order (Str × EnvProvenance)

/-- The three layers, one above the other. -/
def layered (orders : Orders) (personal team : HashMap Str) (system : SystemEnvContext) : Env :=
  let env := (orders.team.1 team.toList).foldl
    (fun env (key, value) => env.insertDirect key value .team .team) (.ofPersonal personal)
  (systemBindings system).foldl
    (fun env (key, value) => env.insertDirect key value .system .system) env

/-- `n.to_be_bytes()` of a `u64`. -/
def toBeBytes (n : Nat) : List UInt8 :=
  (List.range 8).map fun i => UInt8.ofNat (n / 256 ^ (7 - i))

/-- What is hashed of one binding. -/
def entryBytes : Str × Str → List UInt8
  | (key, value) =>
    toBeBytes (Str.utf8Len key) ++ Str.utf8 key ++ toBeBytes (Str.utf8Len value) ++ Str.utf8 value

section Fingerprint

variable {δ : Type} (sha256 : List UInt8 → δ) (hkdf : δ → Str)

/-- `fingerprint_bindings`; `hkdf` is the expansion with the process key, in hex. -/
def fingerprintBindings (order : Order (Str × Str)) (bindings : HashMap Str) : Str :=
  let entries := (order.1 bindings.toList).mergeSort (StableSort.keyLe (·.1))
  hkdf (sha256 (entries.flatMap entryBytes))

/-- `resolve_runtime_env`. -/
def resolveRuntimeEnv (orders : Orders) (personal team : HashMap Str) (system : SystemEnvContext) :
    ResolvedEnvSnapshot :=
  let env := layered orders personal team system
  let env := env.addAliases orders.uppercase .uppercaseAlias upperAlias
  let env := env.addAliases orders.dotFree .dotFreeAlias dotFreeAlias
  { bindings := env.bindings
    fingerprint := fingerprintBindings sha256 hkdf orders.entries env.bindings
    provenance := ((orders.values.1 env.provenance.toList).map (·.2)).mergeSort
      (StableSort.keyLe (·.key))
    overrides := env.overrides.mergeSort (StableSort.keyLe (·.key)) }

end Fingerprint

end TeamClu.RuntimeEnv
