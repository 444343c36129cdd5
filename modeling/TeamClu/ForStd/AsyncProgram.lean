import TeamClu.ForStd.Machine

/-!
# Programs that wait

An asynchronous function is a sequence of atomic calls, with other functions between any two of them.  A
`Program` is such a function: it makes calls one by one and continues with their results.  What a call does
to the shared state, and what the environment may choose at it, is a `Calls`.

* `Program.run` executes a program alone, and `wp` is the condition under which what it does alone satisfies
  a postcondition, as long as the environment chooses what is allowed (`wp_run`, `wp_bind`).
* `Calls.pool` executes any number of programs, their calls in any order.  `Keeps` is the condition under
  which a program keeps an invariant whatever the others do (`Keeps.bind`), and then the invariant holds in
  every state that the pool reaches (`invariant_pool`).
-/

/-- Atomic calls to a state, each with a choice of the environment. -/
structure Calls (σ : Type) where
  Op : Type
  Res : Op → Type
  Choice : Type
  step : (op : Op) → Choice → σ → Res op × σ

/-- A program over the calls. -/
inductive Program {σ : Type} (C : Calls σ) (α : Type)
  | pure (a : α)
  | call (op : C.Op) (next : C.Res op → Program C α)

namespace Program

variable {σ : Type} {C : Calls σ} {α β : Type}

/-- One program after another. -/
def bind : Program C α → (α → Program C β) → Program C β
  | pure a, f => f a
  | call op next, f => call op fun r => (next r).bind f

instance : Monad (Program C) where
  pure := .pure
  bind := .bind

/-- A single call. -/
def perform (op : C.Op) : Program C (C.Res op) := call op pure

/-- The program alone: what it returns and the state it leaves. -/
def run : Program C α → (Nat → C.Choice) → σ → α × σ
  | pure a, _, s => (a, s)
  | call op next, choices, s =>
    (next (C.step op (choices 0) s).1).run (fun n => choices (n + 1)) (C.step op (choices 0) s).2

/-! ## A program alone -/

section Alone

variable {allowed : C.Choice → Prop}

/-- Whatever the environment chooses of what is allowed, the program ends with `Q`. -/
def wp (allowed : C.Choice → Prop) (Q : α → σ → Prop) : Program C α → σ → Prop
  | pure a, s => Q a s
  | call op next, s => ∀ c, allowed c → (next (C.step op c s).1).wp allowed Q (C.step op c s).2

@[simp] theorem wp_pure (Q : α → σ → Prop) (a : α) (s : σ) :
    wp allowed Q (Pure.pure a : Program C α) s ↔ Q a s := Iff.rfl

@[simp] theorem wp_perform {op : C.Op} (Q : C.Res op → σ → Prop) (s : σ) :
    wp allowed Q (perform op) s ↔ ∀ c, allowed c → Q (C.step op c s).1 (C.step op c s).2 := Iff.rfl

@[simp] theorem wp_bind (Q : β → σ → Prop) (p : Program C α) (f : α → Program C β) (s : σ) :
    wp allowed Q (p >>= f) s ↔ wp allowed (fun a => wp allowed Q (f a)) p s := by
  change wp allowed Q (p.bind f) s ↔ _
  induction p generalizing s with
  | pure a => exact Iff.rfl
  | call op next ih => exact forall_congr' fun c => imp_congr_right fun _ => ih _ _

theorem wp_mono {Q R : α → σ → Prop} (h : ∀ a s, Q a s → R a s) {p : Program C α} {s : σ}
    (hp : wp allowed Q p s) : wp allowed R p s := by
  induction p generalizing s with
  | pure a => exact h a s hp
  | call op next ih => exact fun c hc => ih _ (hp c hc)

/-- What holds after all allowed choices holds after a run with such choices. -/
theorem wp_run {Q : α → σ → Prop} {p : Program C α} {s : σ} (h : wp allowed Q p s)
    {choices : Nat → C.Choice} (hchoices : ∀ n, allowed (choices n)) :
    Q (p.run choices s).1 (p.run choices s).2 := by
  induction p generalizing s choices with
  | pure a => exact h
  | call op next ih => exact ih _ (h _ (hchoices 0)) fun n => hchoices (n + 1)

end Alone

/-! ## Programs among others -/

/-- Every call of the program keeps `I`, whatever state with `I` it finds, and the program returns a value
    with `Q`. -/
def Keeps (I : σ → Prop) (Q : α → Prop) : Program C α → Prop
  | pure a => Q a
  | call op next => ∀ c s, I s → I (C.step op c s).2 ∧ (next (C.step op c s).1).Keeps I Q

theorem Keeps.pure {I : σ → Prop} {Q : α → Prop} {a : α} (h : Q a) :
    Keeps I Q (Pure.pure a : Program C α) := h

theorem Keeps.perform {I : σ → Prop} {op : C.Op} {Q : C.Res op → Prop}
    (h : ∀ c s, I s → I (C.step op c s).2 ∧ Q (C.step op c s).1) : Keeps I Q (perform op) := h

/-- What the first program returns is handed to the second. -/
theorem Keeps.bind {I : σ → Prop} {Q : β → Prop} {R : α → Prop} {p : Program C α}
    {f : α → Program C β} (hp : Keeps I R p) (hf : ∀ a, R a → Keeps I Q (f a)) :
    Keeps I Q (p >>= f) := by
  change Keeps I Q (p.bind f)
  induction p with
  | pure a => exact hf a hp
  | call op next ih => exact fun c s hs => ⟨(hp c s hs).1, ih _ (hp c s hs).2⟩

theorem Keeps.mono {I : σ → Prop} {Q R : α → Prop} {p : Program C α} (h : ∀ a, Q a → R a)
    (hp : Keeps I Q p) : Keeps I R p := by
  induction p with
  | pure a => exact h a hp
  | call op next ih => exact fun c s hs => ⟨(hp c s hs).1, ih _ (hp c s hs).2⟩

end Program

namespace Calls

variable {σ : Type} (C : Calls σ)

/-- The state, and what is left of each program that runs. -/
structure Pool where
  state : σ
  tasks : List (Program C Unit)

/-- A program starts, or one of those that run makes its next call. -/
inductive PoolInput
  | start (p : Program C Unit)
  | turn (i : Nat) (c : C.Choice)

/-- One step of the pool. -/
def Pool.step (s : C.Pool) : C.PoolInput → C.Pool
  | .start p => { s with tasks := s.tasks ++ [p] }
  | .turn i c =>
    match s.tasks[i]? with
    | some (.call op next) =>
      { state := (C.step op c s.state).2, tasks := s.tasks.set i (next (C.step op c s.state).1) }
    | _ => s

/-- Programs with their calls in any order. -/
def pool (init : σ) : Machine C.Pool C.PoolInput where
  init := ⟨init, []⟩
  step := Pool.step C

/-- The programs that start in a run. -/
def started : List C.PoolInput → List (Program C Unit)
  | [] => []
  | .start p :: inputs => p :: started inputs
  | .turn .. :: inputs => started inputs

/-- If every program keeps the invariant, the invariant holds whatever the order of their calls. -/
theorem invariant_pool {I : σ → Prop} {init : σ} (hinit : I init) {inputs : List C.PoolInput}
    (h : ∀ p ∈ C.started inputs, p.Keeps I fun _ => True) : I ((C.pool init).run inputs).state := by
  suffices hall : ∀ s : C.Pool, I s.state → (∀ p ∈ s.tasks, p.Keeps I fun _ => True) →
      I ((C.pool init).runFrom s inputs).state from
    hall _ hinit fun p hp => absurd hp List.not_mem_nil
  induction inputs with
  | nil => exact fun s hs _ => hs
  | cons input inputs ih =>
    intro s hs htasks
    rw [Machine.runFrom_cons]
    cases input with
    | start p =>
      refine ih (fun q hq => h q (List.mem_cons_of_mem _ hq)) _ hs fun q hq => ?_
      rcases List.mem_append.mp hq with hq | hq
      · exact htasks q hq
      · rw [List.mem_singleton.mp hq]
        exact h p List.mem_cons_self
    | turn i c =>
      have hstep : I (Pool.step C s (.turn i c)).state ∧
          ∀ p ∈ (Pool.step C s (.turn i c)).tasks, p.Keeps I fun _ => True := by
        rw [Pool.step]
        split
        · next op next hi =>
          have hkeeps := htasks _ (List.mem_of_getElem? hi) c s.state hs
          refine ⟨hkeeps.1, fun q hq => ?_⟩
          rcases List.mem_or_eq_of_mem_set hq with hq | rfl
          · exact htasks q hq
          · exact hkeeps.2
        · exact ⟨hs, htasks⟩
      exact ih h _ hstep.1 hstep.2

end Calls
