import Mathlib.Tactic.Linarith
import Mathlib.Tactic.NormNum
import TeamClu.Native.KeyPool

/-!
# Cooldowns

A failure that is recorded on a slot replaces the cooldown that the slot has.  It moves the end of an active one to no
earlier time, and makes an exhausted or rejected slot no throttled one, exactly when it is `Mild` towards it
(`keeps_iff_mild`).

## Key results

- `Bounded.failed`: every cooldown lasts at most as long as its class and strikes allow
- `keeps_iff_mild`: when a failure brings a key back no sooner
- `succeeded_slot`: a success leaves the cooldowns of other models
-/

namespace TeamClu.KeyPools

/-! ## How long a cooldown lasts -/

/-- The longest cooldown of the class after this many strikes. -/
def longestMs (class_ : FailureClass) (strikes : Nat) : ℚ :=
  if class_ = .rateLimited then THROTTLE_MAX_MS else backoffMs strikes

theorem le_backoffMs (strikes : Nat) : EXHAUSTED_FIRST_MS ≤ backoffMs strikes := by
  have hpow : (1 : ℚ) ≤ 2 ^ min (strikes - 1) 10 := one_le_pow₀ (by norm_num)
  unfold backoffMs EXHAUSTED_FIRST_MS EXHAUSTED_MAX_MS
  refine le_min ?_ (by norm_num)
  linarith

theorem backoffMs_mono {strikes strikes' : Nat} (h : strikes ≤ strikes') : backoffMs strikes ≤ backoffMs strikes' := by
  have hmin : min (strikes - 1) 10 ≤ min (strikes' - 1) 10 := by omega
  have hpow : (2 : ℚ) ^ min (strikes - 1) 10 ≤ 2 ^ min (strikes' - 1) 10 := pow_le_pow_right₀ (by norm_num) hmin
  unfold backoffMs EXHAUSTED_FIRST_MS
  refine min_le_min ?_ le_rfl
  linarith

@[simp] theorem backoffMs_one : backoffMs 1 = EXHAUSTED_FIRST_MS := by
  norm_num [backoffMs, EXHAUSTED_FIRST_MS, EXHAUSTED_MAX_MS]

theorem cooldownMs_le (failure : KeyFailure) (strikes : Nat) :
    cooldownMs failure strikes ≤ longestMs failure.class_ strikes := by
  unfold cooldownMs longestMs
  split
  · exact min_le_left _ _
  · have hfirst := le_backoffMs strikes
    refine max_le ?_ ?_
    · exact le_trans (by norm_num [MIN_COOLDOWN_MS, EXHAUSTED_FIRST_MS]) hfirst
    · split
      · exact min_le_left _ _
      · exact le_rfl

/-- A cooldown began before now and lasts no longer than its class and strikes allow. -/
structure Bounded (cooldown : Cooldown) (now : ℚ) : Prop where
  began : cooldown.at_ ≤ now
  strikes : 1 ≤ cooldown.strikes
  ends : cooldown.until_ ≤ cooldown.at_ + longestMs cooldown.class_ cooldown.strikes

theorem Bounded.mono {cooldown : Cooldown} {now now' : ℚ} (h : Bounded cooldown now) (hle : now ≤ now') :
    Bounded cooldown now' := ⟨h.began.trans hle, h.strikes, h.ends⟩

/-- What is left of a cooldown is at most its longest. -/
theorem Bounded.left_le {cooldown : Cooldown} {now : ℚ} (h : Bounded cooldown now) :
    cooldown.until_ - now ≤ longestMs cooldown.class_ cooldown.strikes := by
  linarith [h.began, h.ends]

theorem strikesOf_pos (previous : Option Cooldown) (failure : KeyFailure) : 1 ≤ strikesOf previous failure := by
  unfold strikesOf
  split
  · split
    · omega
    · omega
  · omega

/-- The cooldown that a failure is recorded as. -/
def recorded (previous : Option Cooldown) (failure : KeyFailure) (now : ℚ) : Cooldown :=
  { class_ := failure.class_, until_ := now + cooldownMs failure (strikesOf previous failure)
    strikes := strikesOf previous failure, at_ := now }

theorem failed_apply (cooldowns : Cooldowns) (key : PooledKey) (model : Str) (failure : KeyFailure) (now : ℚ)
    (slot : Str) : failed cooldowns key model failure now slot =
      if slot = failureSlot key model failure then some (recorded (cooldowns slot) failure now) else cooldowns slot := by
  unfold failed
  rw [Function.update_apply]
  split
  · next heq =>
    subst heq
    rfl
  · rfl

theorem bounded_recorded (previous : Option Cooldown) (failure : KeyFailure) (now : ℚ) :
    Bounded (recorded previous failure now) now :=
  ⟨le_rfl, strikesOf_pos previous failure, add_le_add le_rfl (cooldownMs_le failure (strikesOf previous failure))⟩

/-! ## A failure on an active slot -/

/-- The new cooldown of a slot ends no sooner, and is no throttle where the slot was exhausted or rejected. -/
def Keeps (previous cooldown : Cooldown) : Prop :=
  previous.until_ ≤ cooldown.until_ ∧ (previous.class_ ≠ .rateLimited → cooldown.class_ ≠ .rateLimited)

/-- The hint of a failure is not shorter than what is left, or at most a second is left; ten seconds stand for the hint
    of a throttle without one. -/
def HintLasts (failure : KeyFailure) (left : ℚ) : Prop :=
  (failure.hintMs = none ∧ failure.class_ ≠ .rateLimited) ∨ left ≤ MIN_COOLDOWN_MS ∨
    left ≤ failure.hintMs.getD THROTTLE_DEFAULT_MS

/-- A failure on an active slot is no throttle where the slot is exhausted or rejected; where it is of another class at
    most a minute is left; and its hint lasts. -/
def Mild (previous : Cooldown) (failure : KeyFailure) (now : ℚ) : Prop :=
  (previous.class_ ≠ .rateLimited → failure.class_ ≠ .rateLimited) ∧
    (previous.class_ = failure.class_ ∨ previous.until_ - now ≤ EXHAUSTED_FIRST_MS) ∧
    HintLasts failure (previous.until_ - now)

instance (failure : KeyFailure) (left : ℚ) : Decidable (HintLasts failure left) :=
  inferInstanceAs (Decidable ((_ ∧ _) ∨ _ ∨ _))

instance (previous : Cooldown) (failure : KeyFailure) (now : ℚ) : Decidable (Mild previous failure now) :=
  inferInstanceAs (Decidable ((_ → _) ∧ (_ ∨ _) ∧ _))

/-- The cooldown of a throttle lasts what is left of a throttle, exactly when its hint does. -/
private theorem throttle_iff {failure : KeyFailure} {left : ℚ} (hclass : failure.class_ = .rateLimited)
    (hleft : left ≤ THROTTLE_MAX_MS) (strikes : Nat) :
    left ≤ cooldownMs failure strikes ↔ HintLasts failure left := by
  rw [cooldownMs, if_pos hclass, le_min_iff, le_max_iff, and_iff_right hleft, HintLasts]
  simp [hclass]

/-- The cooldown of a graver failure lasts what is left, exactly when its backoff and its hint do. -/
private theorem backoff_iff {failure : KeyFailure} {left : ℚ} (hclass : failure.class_ ≠ .rateLimited)
    (strikes : Nat) : left ≤ cooldownMs failure strikes ↔ left ≤ backoffMs strikes ∧ HintLasts failure left := by
  have hmin : MIN_COOLDOWN_MS ≤ backoffMs strikes :=
    le_trans (by norm_num [MIN_COOLDOWN_MS, EXHAUSTED_FIRST_MS]) (le_backoffMs strikes)
  rw [cooldownMs, if_neg hclass, HintLasts]
  cases failure.hintMs with
  | some hint =>
    simp only [le_max_iff, le_min_iff, Option.getD_some, reduceCtorEq, false_and, false_or]
    constructor
    · rintro (hle | ⟨hbackoff, hhint⟩)
      · exact ⟨hle.trans hmin, Or.inl hle⟩
      · exact ⟨hbackoff, Or.inr hhint⟩
    · rintro ⟨hbackoff, hle | hhint⟩
      · exact Or.inl hle
      · exact Or.inr ⟨hbackoff, hhint⟩
  | none =>
    simp only [le_max_iff]
    constructor
    · rintro (hle | hbackoff)
      · exact ⟨hle.trans hmin, Or.inl ⟨trivial, hclass⟩⟩
      · exact ⟨hbackoff, Or.inl ⟨trivial, hclass⟩⟩
    · exact fun h => Or.inr h.1

/-- A failure that is recorded on an active slot brings the key back no sooner, exactly when it is mild. -/
theorem keeps_iff_mild {previous : Cooldown} {now : ℚ} (hbounded : Bounded previous now) (failure : KeyFailure) :
    Keeps previous (recorded (some previous) failure now) ↔ Mild previous failure now := by
  have hleft := hbounded.left_le
  have hends : previous.until_ ≤ (recorded (some previous) failure now).until_ ↔
      previous.until_ - now ≤ cooldownMs failure (strikesOf (some previous) failure) := by
    show previous.until_ ≤ now + cooldownMs failure _ ↔ _
    constructor <;> intro h <;> linarith
  unfold Keeps Mild
  rw [hends]
  show _ ∧ (previous.class_ ≠ .rateLimited → failure.class_ ≠ .rateLimited) ↔ _
  by_cases hclass : failure.class_ = .rateLimited
  · by_cases hprevious : previous.class_ = .rateLimited
    · rw [longestMs, if_pos hprevious] at hleft
      rw [throttle_iff hclass hleft]
      simp [hclass, hprevious]
    · simp [hclass, hprevious]
  · rw [backoff_iff hclass]
    have hbackoff : previous.until_ - now ≤ backoffMs (strikesOf (some previous) failure) ↔
        (previous.class_ = failure.class_ ∨ previous.until_ - now ≤ EXHAUSTED_FIRST_MS) := by
      by_cases hsame : previous.class_ = failure.class_
      · rw [longestMs, if_neg (hsame ▸ hclass)] at hleft
        have hstrikes : strikesOf (some previous) failure = previous.strikes + 1 := if_pos hsame
        rw [hstrikes]
        exact iff_of_true (hleft.trans (backoffMs_mono (Nat.le_succ _))) (Or.inl hsame)
      · have hstrikes : strikesOf (some previous) failure = 1 := if_neg hsame
        rw [hstrikes, backoffMs_one]
        simp [hsame]
    rw [hbackoff]
    simp only [ne_eq, hclass, not_false_eq_true, implies_true, true_and, and_true]

/-! ## A success -/

/-- The slots of two models on one key are different. -/
theorem slot_inj {key : PooledKey} {model model' : Str} (h : slot key model = slot key model') : model = model' := by
  have h' := List.append_cancel_left h
  exact List.cons.inj (List.append_cancel_left (List.cons.inj h').2) |>.2

/-- A success on one model leaves the cooldowns of the key's other models. -/
theorem succeeded_slot (cooldowns : Cooldowns) (key : PooledKey) {model model' : Str} (hne : model' ≠ model)
    (hwhole : model' ≠ WHOLE_KEY) : succeeded cooldowns key model (slot key model') = cooldowns (slot key model') := by
  unfold succeeded
  rw [Function.update_of_ne fun h => hne (slot_inj h), Function.update_of_ne fun h => hwhole (slot_inj h)]

end TeamClu.KeyPools
