import Formulary.Formula.Basic
import Formulary.Proofs.Program.Simulation

/-!
# Values at several arguments

The points of a batch share one stack, and a point that fails leaves values on it. No later point
sees them, so a batch is the list of the values that its points have alone.

* `runOn_of_ok`, `runOn_of_error`: steps on a shared stack, against steps on a stack of their own.
* `runShared_fst`: the value that a run on a shared stack gives, whatever others left there.
* `map_of_mapM`: a loop in which no state shows in a result.
* **`evalBatch_eq_map`**, `valuesAt_eq_map`: a batch is pointwise.
-/

namespace Formulary

universe u

variable {K : Type u} [Arith K]

/-! ### One run -/

section Run

variable {names : List String} {slots : List (Option K)} {x : K} {mode : EvalMode}
  {code : List (Instruction K)} {stack : List K}

/-- Steps that succeed leave the stack that they leave when it is theirs alone. -/
theorem runOn_of_ok {left : List K} (h : runCode names slots x mode code stack = .ok left) :
    runOn names slots x mode code stack = (.ok (), left) := by
  induction code generalizing stack with
  | nil =>
    cases h
    rfl
  | cons i is ih =>
    rw [runCode] at h
    rw [runOn]
    cases hstep : i.step names slots x mode stack with
    | ok next =>
      rw [hstep] at h
      exact ih h
    | error e =>
      rw [hstep] at h
      cases h

/-- Steps that fail do so with the same error, and leave some stack. -/
theorem runOn_of_error {e : EvalError} (h : runCode names slots x mode code stack = .error e) :
    ∃ left, runOn names slots x mode code stack = (.error e, left) := by
  induction code generalizing stack with
  | nil => cases h
  | cons i is ih =>
    rw [runCode] at h
    rw [runOn]
    cases hstep : i.step names slots x mode stack with
    | ok next =>
      rw [hstep] at h
      exact ih h
    | error e' =>
      rw [hstep] at h
      cases h
      exact ⟨_, rfl⟩

end Run

/-- A run on a shared stack clears it, runs, and takes the value off it. -/
theorem run_runShared (p : Program K) (slots : List (Option K)) (x : K) (mode : EvalMode)
    (stack : List K) :
    (p.runShared slots x mode).run stack =
      match runOn p.names slots x mode p.code [] with
      | (.ok (), stack) => (.ok (popValue stack).1, (popValue stack).2)
      | (.error e, stack) => (.error e, stack) :=
  rfl

/-- A run on a shared stack gives the value of a run on a stack of its own, whatever is on the
shared one. -/
theorem runShared_fst (p : Program K) (slots : List (Option K)) (x : K) (mode : EvalMode)
    (stack : List K) : ((p.runShared slots x mode).run stack).1 = p.run slots x mode := by
  unfold Program.run
  rw [run_runShared]
  cases h : runCode p.names slots x mode p.code [] with
  | ok left => rw [runOn_of_ok h]
  | error e =>
    obtain ⟨left, hon⟩ := runOn_of_error h
    rw [hon]

/-! ### All points -/

/-- A loop whose body gives the same result in every state gives the list of these results. -/
theorem map_of_mapM {σ α β : Type u} {f : α → StateM σ β} {g : α → β}
    (hf : ∀ a s, ((f a).run s).1 = g a) (xs : List α) (s : σ) :
    ((xs.mapM f).run s).1 = xs.map g := by
  induction xs generalizing s with
  | nil => rfl
  | cons a as ih =>
    rw [List.mapM_cons, List.map_cons, ← hf a s, ← ih ((f a).run s).2]
    rfl

/-- **A batch is the list of the values at its points**: every entry is the value, or the error,
that the tree has there. -/
theorem evalBatch_eq_map (a : Expr K) (xs : List K) (vars : Vars K) (mode : EvalMode) :
    (Program.ofExpr a).evalBatch xs vars mode = xs.map fun x => a.eval x vars mode := by
  apply map_of_mapM
  intro x stack
  rw [runShared_fst, run_ofExpr]

/-- The values of a formula at several arguments are its values at each of them. -/
theorem Formula.valuesAt_eq_map {R : Type u} [RealArith R] (f : Formula R) (xs : List (Complex R)) :
    f.valuesAt xs = xs.map f.valueAt :=
  evalBatch_eq_map f.root xs f.vars .complex

end Formulary
