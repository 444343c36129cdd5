import Mathlib.Data.List.Basic

/-!
# Machines and their runs

A machine is a deterministic step function: every choice of the environment (an outcome, a crash,
an interleaving) is part of the input, so one definition replays a concrete run and carries the
proofs about all runs.

`Steps G` says that every step of a run satisfies `G`, a condition on the state before the step
and on its input.  The invariant rules read: an invariant that every `G`-step preserves holds in
every state a run of `G`-steps reaches (`invariant_runFrom`), and what the invariant and `G`
imply of a step holds of each of its steps (`Steps.of_invariant`).  Where `G` is exact, so is the
rule (`prefixes_iff_steps`).
-/

/-- A deterministic transition system with inputs. -/
structure Machine (σ ι : Type) where
  init : σ
  step : σ → ι → σ

namespace Machine

variable {σ ι : Type} (M : Machine σ ι)

/-- The state after the inputs `is` from `s`. -/
def runFrom (s : σ) (is : List ι) : σ := is.foldl M.step s

/-- The state after the inputs `is` from the initial state. -/
def run (is : List ι) : σ := M.runFrom M.init is

/-- Every step of the run from `s` satisfies `G`. -/
def Steps (G : σ → ι → Prop) : σ → List ι → Prop
  | _, [] => True
  | s, i :: is => G s i ∧ Steps G (M.step s i) is

instance decidableSteps (G : σ → ι → Prop) [∀ s i, Decidable (G s i)] :
    ∀ s is, Decidable (M.Steps G s is)
  | _, [] => isTrue trivial
  | s, i :: is =>
    have := decidableSteps G (M.step s i) is
    inferInstanceAs (Decidable (G s i ∧ M.Steps G (M.step s i) is))

@[simp] theorem runFrom_nil (s : σ) : M.runFrom s [] = s := rfl

@[simp] theorem runFrom_cons (s : σ) (i : ι) (is : List ι) :
    M.runFrom s (i :: is) = M.runFrom (M.step s i) is := rfl

theorem runFrom_append (s : σ) (is js : List ι) :
    M.runFrom s (is ++ js) = M.runFrom (M.runFrom s is) js := by
  simp [runFrom]

@[simp] theorem steps_cons (G : σ → ι → Prop) (s : σ) (i : ι) (is : List ι) :
    M.Steps G s (i :: is) ↔ G s i ∧ M.Steps G (M.step s i) is := Iff.rfl

/-- A run of `G`-steps is one of `G`-steps followed by one of `G`-steps from where it ended. -/
theorem steps_append (G : σ → ι → Prop) (s : σ) (is js : List ι) :
    M.Steps G s (is ++ js) ↔ M.Steps G s is ∧ M.Steps G (M.runFrom s is) js := by
  induction is generalizing s with
  | nil => simp [Steps]
  | cons i is ih => simp [ih, and_assoc]

/-- Without a condition every run will do. -/
theorem steps_true (s : σ) (is : List ι) : M.Steps (fun _ _ => True) s is := by
  induction is generalizing s with
  | nil => trivial
  | cons i is ih => exact ⟨trivial, ih _⟩

/-- A condition on the inputs alone. -/
theorem steps_of_forall {G : ι → Prop} {is : List ι} (h : ∀ i ∈ is, G i) (s : σ) : M.Steps (fun _ => G) s is := by
  induction is generalizing s with
  | nil => trivial
  | cons i is ih => exact ⟨h i List.mem_cons_self, ih (fun j hj => h j (List.mem_cons_of_mem _ hj)) _⟩

theorem Steps.mono {M : Machine σ ι} {G H : σ → ι → Prop} (hGH : ∀ s i, G s i → H s i) {s : σ}
    {is : List ι} (h : M.Steps G s is) : M.Steps H s is := by
  induction is generalizing s with
  | nil => trivial
  | cons i is ih => exact ⟨hGH s i h.1, ih h.2⟩

/-- A run of a machine whose states show those of another is a run of that one. -/
theorem Steps.map {τ : Type} {M : Machine σ ι} {M' : Machine τ ι} {f : σ → τ}
    (hf : ∀ s i, f (M.step s i) = M'.step (f s) i) {G : τ → ι → Prop} {s : σ} {is : List ι}
    (h : M.Steps (fun s => G (f s)) s is) : M'.Steps G (f s) is := by
  induction is generalizing s with
  | nil => trivial
  | cons i is ih => exact ⟨h.1, hf s i ▸ ih h.2⟩

variable {M} {G : σ → ι → Prop} {I : σ → Prop}

/-- An invariant that every `G`-step preserves holds after every run of `G`-steps. -/
theorem invariant_runFrom (hstep : ∀ s i, I s → G s i → I (M.step s i)) {s : σ} {is : List ι}
    (hs : I s) (h : M.Steps G s is) : I (M.runFrom s is) := by
  induction is generalizing s with
  | nil => exact hs
  | cons i is ih => exact ih (hstep s i hs h.1) h.2

/-- What an invariant and `G` imply of one step holds of every step of a run of `G`-steps. -/
theorem Steps.of_invariant {P : σ → ι → Prop} (hstep : ∀ s i, I s → G s i → I (M.step s i))
    (hP : ∀ s i, I s → G s i → P s i) {s : σ} {is : List ι} (hs : I s) (h : M.Steps G s is) :
    M.Steps P s is := by
  induction is generalizing s with
  | nil => trivial
  | cons i is ih => exact ⟨hP s i hs h.1, ih (hstep s i hs h.1) h.2⟩

/-- Where `G` says exactly which steps keep `P`, the states of a run all have `P` exactly when its steps all
    satisfy `G`. -/
theorem prefixes_iff_steps {P : σ → Prop} (hstep : ∀ s i, P s → (P (M.step s i) ↔ G s i)) {s : σ} {is : List ι}
    (hs : P s) : (∀ pre, pre <+: is → P (M.runFrom s pre)) ↔ M.Steps G s is := by
  induction is generalizing s with
  | nil => simp [Steps, hs]
  | cons i is ih =>
    rw [steps_cons]
    constructor
    · intro h
      have hi : P (M.step s i) := h [i] (by simp)
      exact ⟨(hstep s i hs).mp hi, (ih hi).mp fun pre hpre => h (i :: pre) (by simpa using hpre)⟩
    · rintro ⟨hg, hrest⟩ pre hpre
      cases pre with
      | nil => exact hs
      | cons j pre =>
        obtain ⟨rfl, htail⟩ := List.cons_prefix_cons.mp hpre
        exact (ih ((hstep s j hs).mpr hg)).mpr hrest pre htail

end Machine
