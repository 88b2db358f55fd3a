import Formulary.Proofs.Expr.FailingNodes
import Formulary.Proofs.Program.Simulation

/-!
# Real mode

Real mode is complex mode with one more error. The nodes of a tree get their values in one order,
operands before operators and left before right. Real mode does at each node what complex mode does,
until a logarithm is called at a negative number.

* `visits`, `visits_perm`: the nodes in the order in which they get their values, each once.
* `isNegativeLog`: the node is a logarithm whose operand has a negative value in complex mode.
* `firstStop?`: the first node that has no value in complex mode or is such a logarithm.
* `outcome`: the first such node decides what both modes give.
* **`eval_real_iff`**: trees and their programs give in real mode what they give in complex mode, or
  the error of the first such logarithm, and the latter only if all nodes before it have values.

No law of the arithmetic is used.
-/

namespace Formulary.Expr

universe u

variable {K : Type u}

/-! ### The order of evaluation -/

/-- The nodes of a tree in the order in which they get their values. -/
def visits : Expr K → List (Expr K)
  | neg a => a.visits ++ [neg a]
  | binary op a b p => a.visits ++ (b.visits ++ [binary op a b p])
  | call f a p => a.visits ++ [call f a p]
  | a => [a]

/-- Each node of the tree is visited once. -/
theorem visits_perm (a : Expr K) : a.visits.Perm a.subtrees := by
  induction a with
  | number v => exact .refl _
  | argument => exact .refl _
  | named n p => exact .refl _
  | neg a ih => exact (List.perm_append_singleton _ _).trans (ih.cons _)
  | binary op a b p iha ihb =>
    rw [visits, ← List.append_assoc]
    exact (List.perm_append_singleton _ _).trans ((iha.append ihb).cons _)
  | call f a p ih => exact (List.perm_append_singleton _ _).trans (ih.cons _)

variable [Arith K]

/-- The node is a logarithm whose operand has a negative value in complex mode. -/
def isNegativeLog (x : K) (vars : Vars K) : Expr K → Bool
  | call f a _ => f.isLogarithm && (a.eval x vars .complex).toOption.any Arith.isNegative
  | _ => false

/-- The node has no value in complex mode, or it is a logarithm of a negative number. -/
def stops (x : K) (vars : Vars K) (a : Expr K) : Bool :=
  !(a.eval x vars .complex).toOption.isSome || a.isNegativeLog x vars

/-- The first node at which an evaluation has to stop. -/
def firstStop? (x : K) (vars : Vars K) (a : Expr K) : Option (Expr K) :=
  a.visits.find? (stops x vars)

/-- The error of a node that is a logarithm of a negative number. -/
def logError? (x : K) (vars : Vars K) : Expr K → Option EvalError
  | call f a p => if (call f a p).isNegativeLog x vars then some (.logOfNegative f p) else none
  | _ => none

variable {x : K} {vars : Vars K} {a b s : Expr K}

/-! ### The first node that stops -/

theorem not_stops_iff : a.stops x vars = false ↔
    (∃ v, a.eval x vars .complex = .ok v) ∧ a.isNegativeLog x vars = false := by
  unfold stops
  cases a.eval x vars .complex with
  | ok v => simp [Except.toOption]
  | error e => simp [Except.toOption]

theorem firstStop?_neg (a : Expr K) : (neg a).firstStop? x vars =
    (a.firstStop? x vars).or ([neg a].find? (stops x vars)) := by
  simp only [firstStop?, visits, List.find?_append]

theorem firstStop?_binary (op : BinaryOp) (a b : Expr K) (p : Position) :
    (binary op a b p).firstStop? x vars = (a.firstStop? x vars).or
      ((b.firstStop? x vars).or ([binary op a b p].find? (stops x vars))) := by
  simp only [firstStop?, visits, List.find?_append]

theorem firstStop?_call (f : Builtin) (a : Expr K) (p : Position) :
    (call f a p).firstStop? x vars =
      (a.firstStop? x vars).or ([call f a p].find? (stops x vars)) := by
  simp only [firstStop?, visits, List.find?_append]

/-! ### Both modes at once -/

/-- The error is that of the logarithm `s`, or `s` is none of a negative number and the error is
what complex mode gives as well. -/
def Causes (x : K) (vars : Vars K) (a s : Expr K) (e : EvalError) : Prop :=
  s.logError? x vars = some e ∨
    s.logError? x vars = none ∧ a.eval x vars .complex = .error e

variable (x vars) in
/-- What the two modes give: the same value if no node stops, and otherwise an error of real mode
that the first node that stops causes. -/
inductive Outcome (a : Expr K) : Prop
  | value (v : K) (first : a.firstStop? x vars = none) (complex : a.eval x vars .complex = .ok v)
    (real : a.eval x vars .real = .ok v)
  | error (s : Expr K) (e : EvalError) (first : a.firstStop? x vars = some s)
    (real : a.eval x vars .real = .error e) (cause : Causes x vars a s e)

/-- Complex mode fails at a tree where it fails at what comes first in it. -/
theorem Causes.imp {t : Expr K} {e : EvalError} (h : Causes x vars a s e)
    (ht : a.eval x vars .complex = .error e → t.eval x vars .complex = .error e) :
    Causes x vars t s e :=
  h.imp_right fun ⟨hnone, ha⟩ => ⟨hnone, ht ha⟩

theorem logError?_of_not_isNegativeLog (h : a.isNegativeLog x vars = false) :
    a.logError? x vars = none := by
  cases a with
  | call f b p => simp [logError?, h]
  | _ => rfl

/-- A node is left to itself once the nodes before it have values. If it is no logarithm of a
negative number, both modes do the same at it. -/
theorem outcome_self (hlog : a.isNegativeLog x vars = false)
    (hfirst : a.firstStop? x vars = [a].find? (stops x vars))
    (heq : a.eval x vars .real = a.eval x vars .complex) : Outcome x vars a := by
  cases ha : a.eval x vars .complex with
  | ok v =>
    have hstops : a.stops x vars = false := not_stops_iff.2 ⟨⟨v, ha⟩, hlog⟩
    exact .value v (by simp [hfirst, hstops]) ha (heq.trans ha)
  | error e =>
    have hstops : a.stops x vars = true := by simp [stops, ha, Except.toOption]
    exact .error a e (by simp [hfirst, hstops]) (heq.trans ha)
      (.inr ⟨logError?_of_not_isNegativeLog hlog, ha⟩)

/-- The induction of the section: what comes first in a tree decides for the tree. -/
theorem outcome (x : K) (vars : Vars K) (a : Expr K) : Outcome x vars a := by
  induction a with
  | number v => exact outcome_self rfl rfl rfl
  | argument => exact outcome_self rfl rfl rfl
  | named n p => exact outcome_self rfl rfl rfl
  | neg a ih =>
    rcases ih with ⟨v, hfirst, hcomplex, hreal⟩ | ⟨s, e, hfirst, hreal, hcause⟩
    · refine outcome_self rfl (by simp only [firstStop?_neg, hfirst, Option.none_or]) ?_
      simp only [eval, hreal, hcomplex]
    · refine .error s e (by simp only [firstStop?_neg, hfirst, Option.some_or]) ?_
        (hcause.imp fun h => ?_)
      · simp only [eval, hreal]
      · simp only [eval, h]
  | binary op a b p iha ihb =>
    rcases iha with ⟨v, hfirst, hcomplex, hreal⟩ | ⟨s, e, hfirst, hreal, hcause⟩
    · rcases ihb with ⟨w, hfirst', hcomplex', hreal'⟩ | ⟨s, e, hfirst', hreal', hcause⟩
      · refine outcome_self rfl
          (by simp only [firstStop?_binary, hfirst, hfirst', Option.none_or]) ?_
        simp only [eval, hreal, hcomplex, hreal', hcomplex']
      · refine .error s e
          (by simp only [firstStop?_binary, hfirst, hfirst', Option.none_or, Option.some_or]) ?_
          (hcause.imp fun h => ?_)
        · simp only [eval, hreal, hreal']
        · simp only [eval, hcomplex, h]
    · refine .error s e (by simp only [firstStop?_binary, hfirst, Option.some_or]) ?_
        (hcause.imp fun h => ?_)
      · simp only [eval, hreal]
      · simp only [eval, h]
  | call f a p ih =>
    rcases ih with ⟨v, hfirst, hcomplex, hreal⟩ | ⟨s, e, hfirst, hreal, hcause⟩
    · have hself : (call f a p).firstStop? x vars = [call f a p].find? (stops x vars) := by
        simp only [firstStop?_call, hfirst, Option.none_or]
      have hneg : (call f a p).isNegativeLog x vars = (f.isLogarithm && Arith.isNegative v) := by
        simp [isNegativeLog, hcomplex, Except.toOption]
      cases hlog : f.isLogarithm && Arith.isNegative v with
      | false =>
        refine outcome_self (hneg.trans hlog) hself ?_
        have hand : ¬(f.isLogarithm = true ∧ Arith.isNegative v = true) := by
          simpa [Bool.and_eq_true] using hlog
        simp [eval, hreal, hcomplex, evalCall, hand]
      | true =>
        have hand : f.isLogarithm = true ∧ Arith.isNegative v = true := by
          simpa [Bool.and_eq_true] using hlog
        refine .error (call f a p) (.logOfNegative f p) ?_ ?_ (.inl ?_)
        · simp [hself, stops, hneg, hlog]
        · simp [eval, hreal, evalCall, hand]
        · simp [logError?, hneg, hlog]
    · refine .error s e (by simp only [firstStop?_call, hfirst, Option.some_or]) ?_
        (hcause.imp fun h => ?_)
      · simp only [eval, hreal]
      · simp only [eval, h]

/-! ### The error of real mode -/

/-- Complex mode never complains of a logarithm. -/
theorem eval_complex_ne (a : Expr K) (f : Builtin) (p : Position) :
    a.eval x vars .complex ≠ .error (.logOfNegative f p) := by
  intro h
  have hraised := raisedIn_of_eval h
  cases hraised.1

theorem isNegativeLog_call_iff {f : Builtin} {p : Position} :
    (call f b p).isNegativeLog x vars = true ↔ f.isLogarithm = true ∧
      ∃ v, b.eval x vars .complex = .ok v ∧ Arith.isNegative v = true := by
  simp only [isNegativeLog, Bool.and_eq_true]
  cases b.eval x vars .complex with
  | ok v => simp [Except.toOption]
  | error e => simp [Except.toOption]

theorem logError?_eq_some {e : EvalError} (h : s.logError? x vars = some e) :
    ∃ f b p, s = call f b p ∧ (call f b p).isNegativeLog x vars = true ∧ e = .logOfNegative f p := by
  cases s with
  | call f b p =>
    simp only [logError?] at h
    split at h
    · next hneg =>
      cases h
      exact ⟨f, b, p, rfl, hneg, rfl⟩
    · cases h
  | _ => cases h

/-- Real mode complains of a logarithm if that is the first node that stops. -/
theorem eval_real_eq_logOfNegative_iff {f : Builtin} {p : Position} :
    a.eval x vars .real = .error (.logOfNegative f p) ↔
      ∃ b, a.firstStop? x vars = some (call f b p) ∧
        (call f b p).isNegativeLog x vars = true := by
  constructor
  · intro h
    rcases outcome x vars a with ⟨v, -, -, hreal⟩ | ⟨s, e, hfirst, hreal, hcause⟩
    · rw [hreal] at h
      cases h
    · rw [hreal] at h
      cases h
      rcases hcause with hlog | ⟨-, hcomplex⟩
      · obtain ⟨g, b, q, rfl, hneg, he⟩ := logError?_eq_some hlog
        cases he
        exact ⟨b, hfirst, hneg⟩
      · exact absurd hcomplex (eval_complex_ne a f p)
  · rintro ⟨b, hb, hneg⟩
    have hlog : (call f b p).logError? x vars = some (.logOfNegative f p) := by
      simp only [logError?, hneg, if_true]
    rcases outcome x vars a with ⟨v, hfirst, -, -⟩ | ⟨s, e, hfirst, hreal, hcause⟩
    · rw [hb] at hfirst
      cases hfirst
    · rw [hb] at hfirst
      cases hfirst
      rcases hcause with h | ⟨h, -⟩
      · rw [hlog] at h
        cases h
        exact hreal
      · rw [hlog] at h
        cases h

/-- The first node that stops, among the nodes in the order of their values. -/
theorem firstStop?_eq_some_iff : a.firstStop? x vars = some s ↔ s.stops x vars = true ∧
    ∃ before after, a.visits = before ++ s :: after ∧ ∀ t ∈ before, t.stops x vars = false := by
  simp only [firstStop?, List.find?_eq_some_iff_append, Bool.not_eq_true']

/-- Real mode gives what complex mode gives, or complains of a logarithm. -/
theorem eval_real_eq_or (a : Expr K) (x : K) (vars : Vars K) :
    a.eval x vars .real = a.eval x vars .complex ∨
      ∃ f p, a.eval x vars .real = .error (.logOfNegative f p) := by
  rcases outcome x vars a with ⟨v, -, hcomplex, hreal⟩ | ⟨s, e, -, hreal, hcause⟩
  · exact .inl (hreal.trans hcomplex.symm)
  · rcases hcause with hlog | ⟨-, hcomplex⟩
    · obtain ⟨f, b, p, -, -, rfl⟩ := logError?_eq_some hlog
      exact .inr ⟨f, p, hreal⟩
    · exact .inl (hreal.trans hcomplex.symm)

/-- **Real mode is complex mode with one more error.** A tree and its program give the same, which
is in real mode what complex mode gives or the error of a logarithm. The latter is given only in
real mode, and exactly if, in the order of the values, there is a logarithm whose operand has a
negative value in complex mode, before which all nodes have values there and none is such a
logarithm. -/
theorem eval_real_iff (a : Expr K) (x : K) (vars : Vars K) :
    (∀ mode, (Program.ofExpr a).eval x vars mode = a.eval x vars mode) ∧
    (a.eval x vars .real = a.eval x vars .complex ∨
      ∃ f p, a.eval x vars .real = .error (.logOfNegative f p)) ∧
    (∀ f p, a.eval x vars .complex ≠ .error (.logOfNegative f p)) ∧
    ∀ f p, a.eval x vars .real = .error (.logOfNegative f p) ↔
      ∃ before b after v, a.visits = before ++ call f b p :: after ∧ f.isLogarithm = true ∧
        b.eval x vars .complex = .ok v ∧ Arith.isNegative v = true ∧
        ∀ s ∈ before, (∃ w, s.eval x vars .complex = .ok w) ∧
          s.isNegativeLog x vars = false := by
  refine ⟨fun mode => run_ofExpr a x vars mode, eval_real_eq_or a x vars, eval_complex_ne a,
    fun f p => eval_real_eq_logOfNegative_iff.trans ?_⟩
  constructor
  · rintro ⟨b, hfirst, hneg⟩
    obtain ⟨-, before, after, hvisits, hbefore⟩ := firstStop?_eq_some_iff.1 hfirst
    obtain ⟨hlog, v, hv, hnegative⟩ := isNegativeLog_call_iff.1 hneg
    exact ⟨before, b, after, v, hvisits, hlog, hv, hnegative,
      fun s hs => not_stops_iff.1 (hbefore s hs)⟩
  · rintro ⟨before, b, after, v, hvisits, hlog, hv, hnegative, hbefore⟩
    have hneg : (call f b p).isNegativeLog x vars = true :=
      isNegativeLog_call_iff.2 ⟨hlog, v, hv, hnegative⟩
    have hstops : (call f b p).stops x vars = true := by simp only [stops, hneg, Bool.or_true]
    exact ⟨b, firstStop?_eq_some_iff.2
      ⟨hstops, before, after, hvisits, fun s hs => not_stops_iff.2 (hbefore s hs)⟩, hneg⟩

end Formulary.Expr
