import Mathlib.Data.List.Nodup
import TeamClu.Spec.KeyCooldowns

/-!
# Which keys a call tries

Whatever calls overlap, the keys that a call tries on a route are the first of the candidates that it found there.  A
failover stops before its last route for four reasons only, and no failure brings a key back sooner, where each failure
that is recorded on an active slot is mild (`failover_safe`).  A throttle that answers an overlapping call replaces the
cooldown of an exhausted key (`throttle_over_exhausted`).

## Key results

- `RouteTry.Right`: what is right about the keys that are tried on a route
- `GatewayInv.step`: what one step keeps
- `failover_safe`: what holds of every run
-/

namespace TeamClu.KeyPools

/-! ## Keys -/

theorem nodup_distinct (list : List Str) : (distinct list).Nodup := by
  induction list with
  | nil => exact List.nodup_nil
  | cons a list ih =>
    rw [distinct, List.nodup_cons]
    exact ⟨fun h => by simpa using (List.mem_filter.mp h).2, ih.filter _⟩

/-- The keys of a provider are in the order of their positions. -/
theorem pairwise_pooledKeys (sha256Hex : Str → Str) (providerId value : Str) :
    (pooledKeys sha256Hex providerId value).Pairwise (·.position < ·.position) := by
  unfold pooledKeys
  rw [List.pairwise_map, List.pairwise_iff_getElem]
  intro i j hi hj hij
  simpa using hij

theorem nodup_of_positions {keys : List PooledKey} (h : keys.Pairwise (·.position < ·.position)) : keys.Nodup := by
  refine h.imp ?_
  intro a b hlt heq
  rw [heq] at hlt
  exact Nat.lt_irrefl _ hlt

/-- The secrets of a provider's keys are different. -/
theorem nodup_secrets (sha256Hex : Str → Str) (providerId value : Str) :
    ((pooledKeys sha256Hex providerId value).map (·.secret)).Nodup := by
  have hsecrets : (pooledKeys sha256Hex providerId value).map (·.secret) = parseApiKeys value := by
    unfold pooledKeys
    rw [List.map_map]
    exact List.zipIdx_map_fst 0 (parseApiKeys value)
  rw [hsecrets]
  exact nodup_distinct _

/-! ## Candidates -/

/-- A candidate is a key of the provider, and its active cooldowns are throttles. -/
theorem mem_candidates {keys : List PooledKey} {cooldowns : Cooldowns} {model : Str} {now : ℚ} {key : PooledKey}
    (h : key ∈ candidates keys cooldowns model now) :
    key ∈ keys ∧ ∀ c ∈ active cooldowns key model now, c.class_ = .rateLimited := by
  unfold candidates at h
  simp only at h
  split at h
  · obtain ⟨hmem, hhealthy⟩ := List.mem_filter.mp h
    rw [List.isEmpty_iff] at hhealthy
    exact ⟨hmem, fun c hc => absurd (hhealthy ▸ hc) List.not_mem_nil⟩
  · rw [List.mem_mergeSort] at h
    obtain ⟨hmem, hthrottled⟩ := List.mem_filter.mp h
    have hall := (Bool.and_eq_true_iff.mp hthrottled).2
    exact ⟨hmem, fun c hc => of_decide_eq_true (List.all_eq_true.mp hall c hc)⟩

theorem nodup_candidates {keys : List PooledKey} (h : keys.Nodup) (cooldowns : Cooldowns) (model : Str) (now : ℚ) :
    (candidates keys cooldowns model now).Nodup := by
  unfold candidates
  simp only
  split
  · exact h.filter _
  · exact (List.mergeSort_perm _ _).nodup_iff.mpr (h.filter _)

/-! ## What is right about a route -/

/-- What a call found at the beginning of a route as candidates. -/
def RouteTry.candidates (t : RouteTry) : List PooledKey :=
  KeyPools.candidates t.keys t.cooldowns t.route.upstreamModel t.now

/-- The keys that are tried on a route are different, none had an active exhausted or invalid cooldown when the route
    began, and while there was a healthy key they are healthy and in priority order. -/
structure RouteTry.Right (t : RouteTry) : Prop where
  keys : ∀ key ∈ t.tried, key ∈ t.keys
  different : t.tried.Nodup
  notOut : ∀ key ∈ t.tried, ∀ c ∈ active t.cooldowns key t.route.upstreamModel t.now, c.class_ = .rateLimited
  priority : (∃ key ∈ t.keys, active t.cooldowns key t.route.upstreamModel t.now = []) →
    t.tried <+: healthyKeys t.keys t.cooldowns t.route.upstreamModel t.now ∧
      t.tried.Pairwise (·.position < ·.position)

/-- The first of the candidates are right. -/
theorem RouteTry.right {t : RouteTry} (hkeys : t.keys.Pairwise (·.position < ·.position))
    (htried : t.tried <+: t.candidates) : t.Right where
  keys key hkey := (mem_candidates (htried.subset hkey)).1
  different := (nodup_candidates (nodup_of_positions hkeys) _ _ _).sublist htried.sublist
  notOut key hkey := (mem_candidates (htried.subset hkey)).2
  priority hhealthy := by
    have hne : healthyKeys t.keys t.cooldowns t.route.upstreamModel t.now ≠ [] := by
      obtain ⟨key, hkey, hactive⟩ := hhealthy
      have hmem : key ∈ healthyKeys t.keys t.cooldowns t.route.upstreamModel t.now :=
        List.mem_filter.mpr ⟨hkey, by rw [hactive]; rfl⟩
      exact List.ne_nil_of_mem hmem
    have heq : t.candidates = healthyKeys t.keys t.cooldowns t.route.upstreamModel t.now := if_pos hne
    rw [heq] at htried
    exact ⟨htried, (hkeys.filter _).sublist htried.sublist⟩

/-- The keys of a route that were tried, and those that are left. -/
def RouteTry.Going (t : RouteTry) (rest : List PooledKey) : Prop :=
  t.tried ++ rest = t.candidates.take MAX_KEYS_PER_ROUTE

theorem noteTried_append (key : PooledKey) (front : List RouteTry) (last : RouteTry) :
    noteTried key (front ++ [last]) = front ++ [{ last with tried := last.tried ++ [key] }] := by
  induction front with
  | nil => rfl
  | cons first front ih =>
    cases front with
    | nil => rfl
    | cons second front =>
      rw [List.cons_append, List.cons_append, noteTried]
      · exact congrArg _ ih
      · exact fun h => nomatch h

/-! ## One run -/

/-- The route of a request that is on the way, and the keys that are left. -/
def Phase.current? : Phase → Option (Nat × PickedRoute × List PooledKey)
  | .fetching attempt route _ rest | .reading attempt route _ rest _ _ => some (attempt, route, rest)
  | _ => none

/-- The attempt that a run is at. -/
def Phase.attempt? : Phase → Option Nat
  | .top attempt | .fetching attempt _ _ _ | .reading attempt _ _ _ _ _ => some attempt
  | .done _ => none

/-- The routes that a run has tried so far. -/
def TriesInv (tries : List RouteTry) : Prop :=
  ∀ t ∈ tries, t.keys.Pairwise (·.position < ·.position) ∧ t.tried <+: t.candidates

/-- The last of the routes goes on with these keys. -/
def GoesOn (tries : List RouteTry) (rest : List PooledKey) : Prop :=
  ∃ front last, tries = front ++ [last] ∧ last.Going rest

/-- What holds of a run. -/
structure RunInv (run : Run) : Prop where
  tries : TriesInv run.tries
  current : ∀ attempt route rest, run.phase.current? = some (attempt, route, rest) →
    run.call.pick attempt = some route ∧ GoesOn run.tries rest

/-- A run that waits for no request. -/
theorem RunInv.of_tries {run : Run} (h : TriesInv run.tries) (hphase : run.phase.current? = none) : RunInv run :=
  ⟨h, fun attempt route rest hcurrent => by rw [hphase] at hcurrent; cases hcurrent⟩

theorem RunInv.afterRoute {run : Run} (h : TriesInv run.tries) (attempt : Nat) (next : Bool) :
    RunInv (run.afterRoute attempt next) := by
  refine RunInv.of_tries h ?_
  unfold Run.afterRoute
  simp only
  split <;> rfl

/-- A key is noted on the last route. -/
private theorem TriesInv.note {tries : List RouteTry} (h : TriesInv tries) {key : PooledKey} {rest : List PooledKey}
    (hgoes : GoesOn tries (key :: rest)) : TriesInv (noteTried key tries) ∧ GoesOn (noteTried key tries) rest := by
  obtain ⟨front, last, rfl, hgoing⟩ := hgoes
  rw [noteTried_append]
  have hgoing' : RouteTry.Going { last with tried := last.tried ++ [key] } rest := by
    show last.tried ++ [key] ++ rest = last.candidates.take MAX_KEYS_PER_ROUTE
    rw [← hgoing, List.append_assoc]
    rfl
  refine ⟨fun t ht => ?_, front, _, rfl, hgoing'⟩
  rcases List.mem_append.mp ht with hfront | hlast
  · exact h t (List.mem_append_left _ hfront)
  · obtain rfl := List.mem_singleton.mp hlast
    have hkeys := (h last (List.mem_append_right _ List.mem_cons_self)).1
    have htake : last.tried ++ [key] <+: last.candidates.take MAX_KEYS_PER_ROUTE := ⟨rest, hgoing'⟩
    exact ⟨hkeys, htake.trans ( List.take_prefix _ _)⟩

theorem RunInv.tryKeys {run : Run} (h : TriesInv run.tries) {attempt : Nat} {route : PickedRoute}
    (hpick : run.call.pick attempt = some route) {keys : List PooledKey} (hgoes : GoesOn run.tries keys) (next : Bool) :
    RunInv (run.tryKeys attempt route keys next) := by
  cases keys with
  | nil => exact RunInv.afterRoute h attempt next
  | cons key rest =>
    rw [Run.tryKeys]
    split
    · exact RunInv.afterRoute h attempt next
    · obtain ⟨htries, hgoes'⟩ := h.note hgoes
      refine ⟨htries, fun attempt' route' rest' hcurrent => ?_⟩
      obtain ⟨rfl, rfl, rfl⟩ : attempt = attempt' ∧ route = route' ∧ rest = rest' := by
        simpa [Phase.current?] using hcurrent
      exact ⟨hpick, hgoes'⟩

/-- A run begins a route. -/
theorem RunInv.beginRoute {s : Gateway} {run : Run} (h : TriesInv run.tries)
    (hkeys : ∀ provider, (s.keys provider).Pairwise (·.position < ·.position)) {attempt : Nat} {route : PickedRoute}
    (hpick : run.call.pick attempt = some route) : RunInv (s.beginRoute run attempt route) := by
  have htries : TriesInv (run.tries ++
      [{ route, keys := s.keys route.provider, cooldowns := s.cooldowns, now := s.clock }]) := by
    intro t ht
    rcases List.mem_append.mp ht with hold | hlast
    · exact h t hold
    · obtain rfl := List.mem_singleton.mp hlast
      exact ⟨hkeys _, List.nil_prefix⟩
  have hgoes : GoesOn (run.tries ++
      [{ route, keys := s.keys route.provider, cooldowns := s.cooldowns, now := s.clock }])
      ((candidates (s.keys route.provider) s.cooldowns route.upstreamModel s.clock).take MAX_KEYS_PER_ROUTE) :=
    ⟨run.tries, _, rfl, List.nil_append _⟩
  unfold Gateway.beginRoute
  simp only
  split
  · exact RunInv.afterRoute htries attempt _
  · refine RunInv.tryKeys ?_ ?_ ?_ false
    · exact htries
    · exact hpick
    · exact hgoes

/-! ## Every state -/

/-- What holds in every state. -/
structure GatewayInv (s : Gateway) : Prop where
  keys : ∀ provider, (s.keys provider).Pairwise (·.position < ·.position)
  bounded : ∀ slot cooldown, s.cooldowns slot = some cooldown → Bounded cooldown s.clock
  runs : ∀ run ∈ s.runs, RunInv run

variable {numbers : Numbers} {s : Gateway}

/-- A run goes on. -/
private theorem GatewayInv.setRun (h : GatewayInv s) {i : Nat} {run : Run} (hrun : RunInv run) : GatewayInv (s.setRun i run) := by
  refine ⟨h.keys, h.bounded, fun other hother => ?_⟩
  rcases List.mem_or_eq_of_mem_set hother with hold | rfl
  · exact h.runs other hold
  · exact hrun

/-- Other cooldowns that last no longer than they may. -/
private theorem GatewayInv.setCooldowns (h : GatewayInv s) {cooldowns : Cooldowns}
    (hbounded : ∀ slot cooldown, cooldowns slot = some cooldown → Bounded cooldown s.clock) :
    GatewayInv { s with cooldowns } := ⟨h.keys, hbounded, h.runs⟩

theorem GatewayInv.step (h : GatewayInv s) (input : GatewayInput) : GatewayInv (gatewayStep numbers s input) := by
  cases input with
  | advanceClock ms =>
    have hle : s.clock ≤ s.clock + ms := by simp
    exact ⟨h.keys, fun slot cooldown hcooldown => (h.bounded slot cooldown hcooldown).mono hle, h.runs⟩
  | reset providerId keyId =>
    refine h.setCooldowns fun slot cooldown hcooldown => h.bounded slot cooldown ?_
    unfold reset at hcooldown
    split at hcooldown
    · cases hcooldown
    · exact hcooldown
  | start call =>
    refine ⟨h.keys, h.bounded, fun run hmem => ?_⟩
    rcases List.mem_append.mp hmem with hold | hlast
    · exact h.runs run hold
    · obtain rfl := List.mem_singleton.mp hlast
      exact RunInv.of_tries (fun t ht => absurd ht List.not_mem_nil) rfl
  | abort i =>
    rw [gatewayStep]
    split
    · next run hi =>
      have hrun := h.runs run (List.mem_of_getElem? hi)
      exact h.setRun ⟨hrun.tries, hrun.current⟩
    · exact h
  | turn i =>
    rw [gatewayStep]
    split
    · next run hi =>
      have hrun := h.runs run (List.mem_of_getElem? hi)
      split
      · split
        · split
          · next route hpick => exact h.setRun (RunInv.beginRoute hrun.tries h.keys hpick)
          · exact h.setRun (RunInv.of_tries hrun.tries rfl)
        · exact h.setRun (RunInv.of_tries hrun.tries rfl)
      · exact h
    · exact h
  | fetched i answer =>
    rw [gatewayStep]
    split
    · next run hi =>
      have hrun := h.runs run (List.mem_of_getElem? hi)
      split
      · exact h.setRun (RunInv.afterRoute hrun.tries _ _)
      · -- a success takes the cooldown of its key away
        have hdone : RunInv { run with phase := .done .success } := RunInv.of_tries hrun.tries rfl
        refine (h.setRun hdone).setCooldowns fun slot cooldown hcooldown => ?_
        unfold succeeded at hcooldown
        simp only [Function.update_apply] at hcooldown
        split at hcooldown
        · cases hcooldown
        · split at hcooldown
          · cases hcooldown
          · exact h.bounded slot cooldown hcooldown
      · next attempt route key rest status retryAfter hphase =>
        refine h.setRun ⟨hrun.tries, fun attempt' route' rest' hcurrent => hrun.current attempt' route' rest' ?_⟩
        rw [hphase]
        exact hcurrent
      · exact h
    · exact h
  | body i text =>
    rw [gatewayStep]
    split
    · next run hi =>
      have hrun := h.runs run (List.mem_of_getElem? hi)
      split
      · exact h.setRun (RunInv.of_tries hrun.tries rfl)
      · next attempt route key rest status retryAfter text hphase =>
        obtain ⟨hpick, hgoes⟩ := hrun.current attempt route rest (by rw [hphase]; rfl)
        split
        · exact h.setRun (RunInv.of_tries hrun.tries rfl)
        · exact h.setRun (RunInv.afterRoute hrun.tries _ _)
        · -- a failure of the key sets its cooldown, and the next key of the route is tried
          next failure hverdict =>
          refine (h.setRun (RunInv.tryKeys hrun.tries hpick hgoes _)).setCooldowns fun slot cooldown hcooldown => ?_
          rw [failed_apply] at hcooldown
          split at hcooldown
          · obtain rfl := Option.some.inj hcooldown
            exact bounded_recorded _ failure s.clock
          · exact h.bounded slot cooldown hcooldown
      · exact h
    · exact h

/-! ## What a step does -/

/-- The slot and the failure that a body which is read records. -/
def recordedFailure? (numbers : Numbers) (s : Gateway) (i : Nat) (text : Str) : Option (Str × KeyFailure) :=
  match s.runs[i]? with
  | some run =>
    match run.phase with
    | .reading _ route key _ status retryAfter =>
      match classifyUpstream numbers s.clock status retryAfter text with
      | .key failure => some (failureSlot key route.upstreamModel failure, failure)
      | _ => none
    | _ => none
  | none => none

/-- The slot has an active cooldown that the failure is not mild towards. -/
def tooEarly (s : Gateway) (slot : Str) (failure : KeyFailure) : Bool :=
  (s.cooldowns slot).any fun previous =>
    decide (s.clock < previous.until_) && !decide (Mild previous failure s.clock)

/-- A failure that is recorded on an active slot is mild, and no body breaks off. -/
def Gentle (numbers : Numbers) (s : Gateway) : GatewayInput → Prop
  | .body i (some text) => ∀ recorded ∈ recordedFailure? numbers s i text, tooEarly s recorded.1 recorded.2 = false
  | .body _ none => False
  | _ => True

instance (numbers : Numbers) (s : Gateway) : (input : GatewayInput) → Decidable (Gentle numbers s input)
  | .body i (some text) => inferInstanceAs
      (Decidable (∀ recorded ∈ recordedFailure? numbers s i text, tooEarly s recorded.1 recorded.2 = false))
  | .body _ none => isFalse id
  | .advanceClock _ | .reset _ _ | .start _ | .abort _ | .turn _ | .fetched _ _ => isTrue trivial

/-- Every key of the provider is out because it was rejected. -/
def Rejected (s : Gateway) (route : PickedRoute) : Prop :=
  ∀ key ∈ s.keys route.provider, active s.cooldowns key route.upstreamModel s.clock ≠ [] ∧
    ∀ c ∈ active s.cooldowns key route.upstreamModel s.clock, c.class_ = .invalid

/-- A failover that has a route for every attempt has a reason to stop before its last one. -/
def HasReason (s' : Gateway) (run run' : Run) : Prop :=
  ∀ attempt outcome, run.phase.attempt? = some attempt → run'.phase = .done outcome → run.call.failover = true →
    (∀ n < run.call.routeCount, (run.call.pick n).isSome = true) → attempt + 1 < run.call.routeCount →
    outcome = .success ∨ outcome = .callerError ∨ run.aborted = true ∨
      ∃ route, run.call.pick attempt = some route ∧ Rejected s' route

/-- What is right about one step. -/
structure StepRight (numbers : Numbers) (s : Gateway) (input : GatewayInput) : Prop where
  /-- A run that stops has a reason. -/
  stops : ∀ (i : Nat) (run run' : Run), s.runs[i]? = some run → (gatewayStep numbers s input).runs[i]? = some run' →
    HasReason (gatewayStep numbers s input) run run'
  /-- A failure brings no key back sooner. -/
  failed : ∀ i text, input = .body i text → ∀ slot previous, s.cooldowns slot = some previous →
    s.clock < previous.until_ → ∃ cooldown, (gatewayStep numbers s input).cooldowns slot = some cooldown ∧
      Keeps previous cooldown
  /-- A success on a model leaves the cooldowns of the key's other models. -/
  succeeded : ∀ (i : Nat) (run : Run) attempt route key rest, input = .fetched i .ok → s.runs[i]? = some run →
    run.phase = .fetching attempt route key rest → ∀ model, model ≠ route.upstreamModel → model ≠ WHOLE_KEY →
    (gatewayStep numbers s input).cooldowns (slot key model) = s.cooldowns (slot key model)

theorem rejected_of_onlyInvalid {route : PickedRoute}
    (h : onlyInvalid (s.keys route.provider) s.cooldowns route.upstreamModel s.clock = true) : Rejected s route := by
  intro key hkey
  obtain ⟨hsome, hall⟩ := Bool.and_eq_true_iff.mp (List.all_eq_true.mp h key hkey)
  refine ⟨fun hnil => ?_, fun c hc => of_decide_eq_true (List.all_eq_true.mp hall c hc)⟩
  rw [hnil] at hsome
  cases hsome

/-- A run that goes on after its route does not stop, or its route is rejected. -/
private theorem hasReason_afterRoute {run base : Run} {s' : Gateway} {attempt : Nat} {route : PickedRoute} {next : Bool}
    (hattempt : run.phase.attempt? = some attempt) (hcall : base.call = run.call)
    (hpick : run.call.pick attempt = some route) (hnext : next = false → run.aborted = true ∨ Rejected s' route) :
    HasReason s' run (base.afterRoute attempt next) := by
  intro attempt' outcome hattempt' hdone hfailover _ _
  obtain rfl : attempt = attempt' := Option.some.inj (hattempt.symm.trans hattempt')
  cases next with
  | true =>
    rw [Run.afterRoute, hcall, hfailover] at hdone
    cases hdone
  | false =>
    rcases hnext rfl with haborted | hrejected
    · exact Or.inr (Or.inr (Or.inl haborted))
    · exact Or.inr (Or.inr (Or.inr ⟨route, hpick, hrejected⟩))

/-- A run that tries its next key does not stop, or it is aborted, or no key is left. -/
private theorem hasReason_tryKeys {run base : Run} {s' : Gateway} {attempt : Nat} {route : PickedRoute}
    {keys : List PooledKey} {next : Bool} (hattempt : run.phase.attempt? = some attempt) (hcall : base.call = run.call)
    (haborted : base.aborted = run.aborted) (hpick : run.call.pick attempt = some route)
    (hnext : keys = [] → next = false → Rejected s' route) :
    HasReason s' run (base.tryKeys attempt route keys next) := by
  cases keys with
  | nil => exact hasReason_afterRoute hattempt hcall hpick fun hno => Or.inr (hnext rfl hno)
  | cons key rest =>
    rw [Run.tryKeys]
    split
    · next hyes => exact hasReason_afterRoute hattempt hcall hpick fun _ => Or.inl (haborted ▸ hyes)
    · intro attempt' outcome _ hdone
      cases hdone

/-- A run that is as before, or over as its outcome says, has its reason. -/
private theorem hasReason_same {run : Run} (s' : Gateway) : HasReason s' run run := by
  intro attempt outcome hattempt hdone
  rw [hdone] at hattempt
  cases hattempt

/-- The run at an index after one was set: it is the one that was set, or as before. -/
private theorem runs_set {runs : List Run} {i j : Nat} {other run run' new : Run} (hi : runs[i]? = some other)
    (hj : runs[j]? = some run) (hj' : (runs.set i new)[j]? = some run') : (other = run ∧ run' = new) ∨ run' = run := by
  rw [List.getElem?_set] at hj'
  split at hj'
  · next heq =>
    subst heq
    split at hj'
    · exact Or.inl ⟨Option.some.inj (hi.symm.trans hj), (Option.some.inj hj').symm⟩
    · cases hj'
  · exact Or.inr (Option.some.inj (hj'.symm.trans hj))

/-- An aborted run is where it was. -/
private theorem hasReason_abort {run : Run} (s' : Gateway) : HasReason s' run { run with aborted := true } := by
  intro attempt outcome hattempt hdone
  rw [show run.phase = .done outcome from hdone] at hattempt
  cases hattempt

/-- A run that began a route. -/
private theorem hasReason_beginRoute {run : Run} {attempt : Nat} {route : PickedRoute} {s' : Gateway}
    (hkeys : s'.keys = s.keys) (hcooldowns : s'.cooldowns = s.cooldowns) (hclock : s'.clock = s.clock)
    (hattempt : run.phase.attempt? = some attempt) (hpick : run.call.pick attempt = some route) :
    HasReason s' run (s.beginRoute run attempt route) := by
  unfold Gateway.beginRoute
  simp only
  split
  · refine hasReason_afterRoute hattempt rfl hpick fun hno => Or.inr (rejected_of_onlyInvalid ?_)
    rw [hkeys, hcooldowns, hclock]
    simpa using hno
  · next hsome =>
    refine hasReason_tryKeys hattempt rfl rfl hpick fun hnil _ => absurd ?_ hsome
    rcases List.take_eq_nil_iff.mp hnil with hzero | hnil
    · cases hzero
    · exact hnil

private theorem GatewayInv.stops (h : GatewayInv s) {input : GatewayInput} (hgentle : Gentle numbers s input)
    {s' : Gateway} (hstep : gatewayStep numbers s input = s') {j : Nat} {run run' : Run} (hj : s.runs[j]? = some run)
    (hj' : s'.runs[j]? = some run') : HasReason s' run run' := by
  have hsame : s'.runs[j]? = s.runs[j]? → HasReason s' run run' := fun heq => by
    obtain rfl : run' = run := Option.some.inj (hj'.symm.trans (heq.trans hj))
    exact hasReason_same _
  cases input with
  | advanceClock ms => exact hsame (by rw [← hstep]; rfl)
  | reset providerId keyId => exact hsame (by rw [← hstep]; rfl)
  | start call =>
    refine hsame ?_
    rw [← hstep]
    exact List.getElem?_append_left (List.getElem?_eq_some_iff.mp hj).1
  | abort i =>
    rw [gatewayStep] at hstep
    split at hstep
    · next other hi =>
      subst hstep
      rcases runs_set hi hj hj' with ⟨rfl, rfl⟩ | rfl
      · exact hasReason_abort _
      · exact hasReason_same _
    · exact hsame (by rw [hstep])
  | turn i =>
    rw [gatewayStep] at hstep
    split at hstep
    · next other hi =>
      split at hstep
      · next attempt hphase =>
        have hattempt : other.phase.attempt? = some attempt := by rw [hphase]; rfl
        split at hstep
        · next hgoes =>
          split at hstep
          · next route hpick =>
            subst hstep
            rcases runs_set hi hj hj' with ⟨rfl, rfl⟩ | rfl
            · exact hasReason_beginRoute rfl rfl rfl hattempt hpick
            · exact hasReason_same _
          · next hnone =>
            subst hstep
            rcases runs_set hi hj hj' with ⟨rfl, rfl⟩ | rfl
            · -- There is a route for every attempt.
              intro attempt' outcome hattempt' _ _ hpick
              obtain rfl : attempt = attempt' := Option.some.inj (hattempt.symm.trans hattempt')
              have hsome := hpick attempt hgoes.1
              rw [hnone] at hsome
              cases hsome
            · exact hasReason_same _
        · next hstops =>
          subst hstep
          rcases runs_set hi hj hj' with ⟨rfl, rfl⟩ | rfl
          · intro attempt' outcome hattempt' _ _ _ hlast
            obtain rfl : attempt = attempt' := Option.some.inj (hattempt.symm.trans hattempt')
            refine Or.inr (Or.inr (Or.inl ?_))
            by_contra haborted
            exact hstops ⟨by omega, by simpa using haborted⟩
          · exact hasReason_same _
      · exact hsame (by rw [hstep])
    · exact hsame (by rw [hstep])
  | fetched i answer =>
    rw [gatewayStep] at hstep
    split at hstep
    · next other hi =>
      have hother := h.runs other (List.mem_of_getElem? hi)
      split at hstep
      · next attempt route key rest hphase =>
        obtain ⟨hpick, -⟩ := hother.current attempt route rest (by rw [hphase]; rfl)
        subst hstep
        rcases runs_set hi hj hj' with ⟨rfl, rfl⟩ | rfl
        · exact hasReason_afterRoute (by rw [hphase]; rfl) rfl hpick fun hno => (nomatch hno)
        · exact hasReason_same _
      · subst hstep
        rcases runs_set hi hj hj' with ⟨rfl, rfl⟩ | rfl
        · intro attempt outcome _ hdone
          exact fun _ _ _ => Or.inl (Phase.done.inj hdone).symm
        · exact hasReason_same _
      · subst hstep
        rcases runs_set hi hj hj' with ⟨rfl, rfl⟩ | rfl
        · intro attempt outcome _ hdone
          cases hdone
        · exact hasReason_same _
      · exact hsame (by rw [hstep])
    · exact hsame (by rw [hstep])
  | body i text =>
    rw [gatewayStep] at hstep
    split at hstep
    · next other hi =>
      have hother := h.runs other (List.mem_of_getElem? hi)
      split at hstep
      · exact hgentle.elim
      · next attempt route key rest status retryAfter text hphase =>
        obtain ⟨hpick, -⟩ := hother.current attempt route rest (by rw [hphase]; rfl)
        have hattempt : other.phase.attempt? = some attempt := by rw [hphase]; rfl
        split at hstep
        · subst hstep
          rcases runs_set hi hj hj' with ⟨rfl, rfl⟩ | rfl
          · intro attempt' outcome _ hdone
            exact fun _ _ _ => Or.inr (Or.inl (Phase.done.inj hdone).symm)
          · exact hasReason_same _
        · subst hstep
          rcases runs_set hi hj hj' with ⟨rfl, rfl⟩ | rfl
          · exact hasReason_afterRoute hattempt rfl hpick fun hno => (nomatch hno)
          · exact hasReason_same _
        · next failure hverdict =>
          subst hstep
          rcases runs_set hi hj hj' with ⟨rfl, rfl⟩ | rfl
          · refine hasReason_tryKeys hattempt rfl rfl hpick fun _ hno => rejected_of_onlyInvalid ?_
            exact Bool.not_eq_eq_eq_not.mp hno
          · exact hasReason_same _
      · exact hsame (by rw [hstep])
    · exact hsame (by rw [hstep])

/-- A failure brings no key back sooner. -/
private theorem GatewayInv.failed_keeps (h : GatewayInv s) {i : Nat} {text : Option Str}
    (hgentle : Gentle numbers s (.body i text)) {slot : Str} {previous : Cooldown}
    (hprevious : s.cooldowns slot = some previous) (hactive : s.clock < previous.until_) :
    ∃ cooldown, (gatewayStep numbers s (.body i text)).cooldowns slot = some cooldown ∧ Keeps previous cooldown := by
  have hsame : Keeps previous previous := ⟨le_rfl, id⟩
  rw [gatewayStep]
  split
  · next run hi =>
    split
    · exact ⟨previous, hprevious, hsame⟩
    · next attempt route key rest status retryAfter text hphase =>
      split
      · exact ⟨previous, hprevious, hsame⟩
      · exact ⟨previous, hprevious, hsame⟩
      · next failure hverdict =>
        simp only
        rw [failed_apply]
        split
        · next hslot =>
          have hrecorded : (slot, failure) ∈ recordedFailure? numbers s i text := by
            simp only [recordedFailure?, hi, hphase, hverdict, hslot]
            rfl
          have hmild : Mild previous failure s.clock := by
            have hearly := hgentle _ hrecorded
            simpa [tooEarly, hprevious, hactive] using hearly
          rw [hprevious]
          exact ⟨_, rfl, (keeps_iff_mild (h.bounded slot previous hprevious) failure).mpr hmild⟩
        · exact ⟨previous, hprevious, hsame⟩
    · exact ⟨previous, hprevious, hsame⟩
  · exact ⟨previous, hprevious, hsame⟩

theorem GatewayInv.stepRight (h : GatewayInv s) (input : GatewayInput) (hgentle : Gentle numbers s input) :
    StepRight numbers s input where
  stops _ _ _ hj hj' := h.stops hgentle rfl hj hj'
  failed i text hinput slot previous hprevious hactive := by
    subst hinput
    exact h.failed_keeps hgentle hprevious hactive
  succeeded i run attempt route key rest hinput hi hphase model hne hwhole := by
    subst hinput
    simp only [gatewayStep, hi, hphase]
    exact succeeded_slot s.cooldowns key hne hwhole

/-! ## Every run -/

theorem gatewayInv_init (numbers : Numbers) (sha256Hex env : Str → Str) (clock : ℚ) :
    GatewayInv (gatewayMachine numbers sha256Hex env clock).init where
  keys providerId := pairwise_pooledKeys sha256Hex providerId (env providerId)
  bounded slot cooldown hcooldown := by cases hcooldown
  runs run hrun := absurd hrun List.not_mem_nil

/-- Whatever calls overlap and whatever is answered: each tries the right keys on each of its routes.  Where each
    failure that is recorded on an active slot is mild and no body breaks off, a failover stops before its last route
    for a reason, no failure brings a key back sooner, and a success leaves the cooldowns of other models. -/
theorem failover_safe (numbers : Numbers) (sha256Hex env : Str → Str) (clock : ℚ) (inputs : List GatewayInput) :
    (∀ run ∈ ((gatewayMachine numbers sha256Hex env clock).run inputs).runs, ∀ t ∈ run.tries, t.Right) ∧
      ((gatewayMachine numbers sha256Hex env clock).Steps (Gentle numbers)
          (gatewayMachine numbers sha256Hex env clock).init inputs →
        (gatewayMachine numbers sha256Hex env clock).Steps (StepRight numbers)
          (gatewayMachine numbers sha256Hex env clock).init inputs) := by
  have hinit := gatewayInv_init numbers sha256Hex env clock
  have hinv : GatewayInv ((gatewayMachine numbers sha256Hex env clock).run inputs) :=
    Machine.invariant_runFrom (M := gatewayMachine numbers sha256Hex env clock) (G := fun _ _ => True)
      (fun s input h _ => h.step input) hinit (Machine.steps_true _ _ _)
  constructor
  · intro run hrun t ht
    obtain ⟨hkeys, htried⟩ := (hinv.runs run hrun).tries t ht
    exact RouteTry.right hkeys htried
  · exact Machine.Steps.of_invariant (M := gatewayMachine numbers sha256Hex env clock)
      (fun s input h _ => h.step input) (fun s input h hgood => h.stepRight input hgood) hinit

/-- No string is a number or a date. -/
def noNumbers : Numbers where
  number _ := none
  dateParse _ := none

/-- One provider with the key `k`. -/
abbrev oneKey : Machine Gateway GatewayInput := gatewayMachine noNumbers id (fun _ => "k".toList) 0

/-- A call with one route. -/
def oneRoute : UpstreamCall where
  failover := false
  routeCount := 1
  pick _ := some { backendId := "b".toList, provider := "p".toList, upstreamModel := "m".toList }

/-- Two calls send their requests with the one key, and the first is answered that its quota is used up. -/
def quotaThenThrottle : List GatewayInput :=
  [.start oneRoute, .start oneRoute, .turn 0, .turn 1, .fetched 0 (.error 429 none), .body 0 (some "quota".toList),
    .fetched 1 (.error 429 none)]

/-- What the slot of the model has: its class and when it ends. -/
def slotState (s : Gateway) : Option (FailureClass × ℚ) :=
  (s.cooldowns "p\x00k\x00m".toList).map fun c => (c.class_, c.until_)

/-- The second answer is a throttle: the exhausted key is now a throttled one, and comes back fifty seconds sooner. -/
theorem throttle_over_exhausted :
    slotState (oneKey.run quotaThenThrottle) = some (.exhausted, 60000) ∧
      slotState (oneKey.run (quotaThenThrottle ++ [.body 1 (some "slow down".toList)])) =
        some (.rateLimited, 10000) := by
  decide +kernel

/-- A call with two routes, the second at another provider. -/
def twoRoutes : UpstreamCall where
  failover := true
  routeCount := 2
  pick n := if n < 2 then
    some { backendId := "b".toList, provider := if n = 0 then "p".toList else "q".toList, upstreamModel := "m".toList }
  else none

/-- Two calls send their requests with one key.  The first is throttled, and then the second finds that the quota is
    used up.  Both go on to the other provider, where they succeed. -/
def throttleThenQuota : List GatewayInput :=
  [.start twoRoutes, .start twoRoutes, .turn 0, .turn 1, .fetched 0 (.error 429 none),
    .body 0 (some "slow down".toList), .fetched 1 (.error 429 none), .body 1 (some "quota".toList), .turn 0, .turn 1,
    .fetched 0 .ok, .fetched 1 .ok]

/-- The graver failure is recorded on a slot that is active. -/
theorem failover_safe_quota :
    (oneKey.run throttleThenQuota).runs.map (·.phase) = [.done .success, .done .success] ∧
      slotState (oneKey.run throttleThenQuota) = some (.exhausted, 60000) ∧
      oneKey.Steps (StepRight noNumbers) oneKey.init throttleThenQuota :=
  ⟨by decide +kernel, by decide +kernel,
    (failover_safe noNumbers id (fun _ => "k".toList) 0 throttleThenQuota).2 (by decide +kernel)⟩

end TeamClu.KeyPools
