import Formulary.Binary64.Arith
import Formulary.Proofs.Expr.FailingNodes
import Formulary.Proofs.Grammar.Rejects
import Formulary.Proofs.Program.Simulation

/-!
# Errors point at their tokens

The nodes of a parsed tree carry the places of the tokens they were read from: a quotient that of
its sign, a variable that of its name, a call that of its function. Two of them are written
otherwise than they are reported: Euler's number may stand for an exponential, and the natural
logarithm has two names.

* `sourceNodes ts`: the places are those of tokens of `ts` that are read as such nodes.
* `nodesHold_of_denotes`, `nodesHold_of_parse`: the nodes of a parsed tree have such places.
* **`eval_error_token`**: an error of a parsed tree, of its simplified form or of a program of either
  points at the token that caused it, except for a division by zero that simplification introduced.
-/

namespace Formulary

universe u

/-- The node carries the place of a token that is read as the node. -/
def sourceNodes (ts : List Token) : NodeProperty where
  named n p := ∃ t ∈ ts, p = some t.start ∧
    (t.kind = .name ∧ t.text = n ∨ t.kind = .operator (.apply .exp) ∧ n = eulerName)
  quotient p := ∃ t ∈ ts, p = some t.start ∧ t.kind = .operator .div
  call f p := ∃ t ∈ ts, p = some t.start ∧
    (t.kind = .operator (.apply f) ∨ t.kind = .operator (.apply .ln) ∧ f = .log)

/-- The same, where a quotient may have no place. -/
def simplifiedNodes (ts : List Token) : NodeProperty :=
  { sourceNodes ts with quotient := fun p => p = none ∨ (sourceNodes ts).quotient p }

theorem reports_of_simplifiedNodes {ts : List Token} {e : EvalError}
    (h : (simplifiedNodes ts).Reports e) :
    (sourceNodes ts).Reports e ∨ e = .divisionByZero none := by
  cases e with
  | divisionByZero p =>
    rcases h with rfl | h
    · exact .inr rfl
    · exact .inl h
  | _ => exact .inl h

theorem Expr.NodesHold.simplified {K : Type u} {ts : List Token} {a : Expr K}
    (h : a.NodesHold (sourceNodes ts)) : a.NodesHold (simplifiedNodes ts) := by
  induction a with
  | number v => trivial
  | argument => trivial
  | named n p => exact h
  | neg a ih => exact ih h
  | binary op a b p iha ihb => exact ⟨fun hop => .inr (h.1 hop), iha h.2.1, ihb h.2.2⟩
  | call f a p ih => exact ⟨h.1, ih h.2⟩

variable {R : Type u} [RealArith R]

/-! ### Parsed trees -/

/-- The nodes of a derived tree carry the places of tokens that its lexemes become. -/
theorem nodesHold_of_denotes {φ : Phrase} {ls : List Placed} {a : Expr (Complex R)}
    {ts : List Token} (h : Denotes φ ls a) (hts : ∀ l ∈ ls, ∃ last, l.token last ∈ ts) :
    a.NodesHold (sourceNodes ts) := by
  induction h with
  | number hl hv => trivial
  | argument hl hx => trivial
  | name hl hx =>
    obtain ⟨last, hmem⟩ := hts _ List.mem_cons_self
    exact ⟨_, hmem, rfl, .inl ⟨kind_of_isName last hl, rfl⟩⟩
  | group ho hc ha ih =>
    exact ih fun l h => hts l (List.mem_cons_of_mem _ (List.mem_append_left _ h))
  | ofPrimary ha ih => exact ih hts
  | neg hl ha ih => exact ih fun l h => hts l (List.mem_cons_of_mem _ h)
  | exponential hl ha ih =>
    obtain ⟨last, hmem⟩ := hts _ List.mem_cons_self
    exact ⟨fun h => BinaryOp.noConfusion h,
      ⟨_, hmem, rfl, .inr ⟨kind_of_function? last hl, rfl⟩⟩,
      ih fun l h => hts l (List.mem_cons_of_mem _ h)⟩
  | logarithm hl ha ih =>
    obtain ⟨last, hmem⟩ := hts _ List.mem_cons_self
    exact ⟨⟨_, hmem, rfl, .inr ⟨kind_of_function? last hl, rfl⟩⟩,
      ih fun l h => hts l (List.mem_cons_of_mem _ h)⟩
  | call hl hexp hln ha ih =>
    obtain ⟨last, hmem⟩ := hts _ List.mem_cons_self
    exact ⟨⟨_, hmem, rfl, .inl (kind_of_function? last hl)⟩,
      ih fun l h => hts l (List.mem_cons_of_mem _ h)⟩
  | ofUnary ha ih => exact ih hts
  | pow hl ha hb iha ihb =>
    exact ⟨fun h => BinaryOp.noConfusion h, iha fun l h => hts l (List.mem_append_left _ h),
      ihb fun l h => hts l (List.mem_append_right _ (List.mem_cons_of_mem _ h))⟩
  | ofPower ha ih => exact ih hts
  | @factor l c op ls rs a b hl hop ha hb iha ihb =>
    refine ⟨?_, iha fun l h => hts l (List.mem_append_left _ h),
      ihb fun l h => hts l (List.mem_append_right _ (List.mem_cons_of_mem _ h))⟩
    rintro rfl
    obtain ⟨last, hmem⟩ := hts l (List.mem_append_right _ List.mem_cons_self)
    have hc : Operator.ofChar? c = some .div := by
      unfold Phrase.joins at hop
      split at hop <;> first | rfl | cases hop
    exact ⟨_, hmem, rfl, kind_of_isSign last hl hc (by decide)⟩
  | juxtaposed hl ha hb iha ihb =>
    exact ⟨fun h => BinaryOp.noConfusion h, iha fun l h => hts l (List.mem_append_left _ h),
      ihb fun l h => hts l (List.mem_append_right _ h)⟩
  | ofTerm ha ih => exact ih hts
  | summand hl hop ha hb iha ihb =>
    refine ⟨?_, iha fun l h => hts l (List.mem_append_left _ h),
      ihb fun l h => hts l (List.mem_append_right _ (List.mem_cons_of_mem _ h))⟩
    rintro rfl
    rcases joins_expr hop with h | h <;> cases h

theorem nodesHold_of_parse {s : String} {a : Expr (Complex R)} (h : parse s = .ok a) :
    a.NodesHold (sourceNodes (tokenize s)) := by
  refine nodesHold_of_denotes (denotes_of_parse h) fun l hl => ?_
  rw [tokenize_eq]
  exact token_mem_tokensAfter hl none

/-! ### Errors -/

/-- Every error of a parsed tree points at the token that caused it, and so does every error of its
program. After simplification a division by zero may have no place. -/
theorem eval_error_token {s : String} {a : Expr (Complex R)} (h : parse s = .ok a) (x : Complex R)
    (vars : Vars (Complex R)) (mode : EvalMode) (e : EvalError) :
    (a.eval x vars mode = .error e ∨ (Program.ofExpr a).eval x vars mode = .error e →
      (sourceNodes (tokenize s)).Reports e) ∧
    (a.simplify.eval x vars mode = .error e ∨
        (Program.ofExpr a.simplify).eval x vars mode = .error e →
      (sourceNodes (tokenize s)).Reports e ∨ e = .divisionByZero none) := by
  have hprogram (b : Expr (Complex R)) :
      (Program.ofExpr b).eval x vars mode = b.eval x vars mode := run_ofExpr b x vars mode
  have hnodes := nodesHold_of_parse h
  rw [hprogram, hprogram, or_self, or_self]
  refine ⟨fun he => hnodes.reports (Expr.raisedIn_of_eval he), fun he => ?_⟩
  have hnone : (simplifiedNodes (tokenize s)).quotient none := .inl rfl
  have hsimplified := Expr.nodesHold_simplify hnone hnodes.simplified
  exact reports_of_simplifiedNodes (hsimplified.reports (Expr.raisedIn_of_eval he))

/-- The logarithm that a negative argument fails at is reported at its name, which is the other one
of its two names. -/
theorem eval_error_token_logarithm :
    ∃ a : Expr (Complex Double), parse "ln x" = .ok a ∧
      a.eval (-(Arith.ofNat 1)) .constants .real = .error (.logOfNegative .log (some 0)) ∧
      (sourceNodes (tokenize "ln x")).Reports (.logOfNegative .log (some 0)) := by
  have hwritten : written "ln x" = [⟨⟨.word, ['l', 'n']⟩, 0⟩, ⟨⟨.word, ['x']⟩, 3⟩] := by
    decide +kernel
  have hx : Denotes .primary [⟨⟨.word, ['x']⟩, 3⟩] (.argument : Expr (Complex Double)) :=
    .argument (by decide +kernel) (by decide +kernel)
  have hparse : parse "ln x" = .ok (.call .log .argument (some 0) : Expr (Complex Double)) := by
    refine parse_of_denotes ?_
    rw [hwritten]
    exact .ofTerm (.ofPower (.ofUnary (.logarithm (by decide +kernel) (.ofPrimary hx))))
  have hnegative : Arith.isNegative (-(Arith.ofNat 1) : Complex Double) = true := by
    decide +kernel
  have herror : (.call .log .argument (some 0) : Expr (Complex Double)).eval (-(Arith.ofNat 1))
      .constants .real = .error (.logOfNegative .log (some 0)) := by
    show evalCall .log _ (some 0) .real = _
    unfold evalCall
    rw [if_pos ⟨rfl, rfl, hnegative⟩]
  exact ⟨_, hparse, herror, (eval_error_token hparse _ _ _ _).1 (.inl herror)⟩

end Formulary
