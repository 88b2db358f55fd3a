import Formulary.Expr.Script

/-!
# The pieces of Lua expressions

* `luaPieces?`: what the Lua expression of a function puts around its operand, which may stand there
  several times; **`luaCall?_eq`** says so.
* `Expr.exists_of_lua_neg`, `Expr.exists_of_lua_binary`, `Expr.exists_of_lua_call`: the Lua
  expression of a tree is that of its operands with something around them.
-/

namespace Formulary

open RealArith

universe u

variable {R : Type u} [RealArith R]

/-- What stands before, between and after the places of the operand. -/
def luaPieces? : Builtin → Option (List String)
  | .sin => some ["math.sin(", ")"]
  | .cos => some ["math.cos(", ")"]
  | .tan => some ["math.tan(", ")"]
  | .arcsin => some ["math.asin(", ")"]
  | .arccos => some ["math.acos(", ")"]
  | .arctan => some ["math.atan(", ")"]
  | .sinh => some ["((math.exp(", ")-math.exp(-", "))/2)"]
  | .cosh => some ["((math.exp(", ")+math.exp(-", "))/2)"]
  | .tanh => some ["((math.exp(2*", ")-1)/(math.exp(2*", ")+1))"]
  | .arcsinh => some ["math.log(", "+math.sqrt(", "^2+1))"]
  | .arccosh => some ["math.log(", "+math.sqrt(", "^2-1))"]
  | .arctanh => some ["(0.5*math.log((1+", ")/(1-", ")))"]
  | .sqrt => some ["math.sqrt(", ")"]
  | .exp => some ["math.exp(", ")"]
  | .ln | .log => some ["math.log(", ")"]
  | .log10 => some ["math.log(", ",10)"]
  | .log2 => some ["math.log(", ",2)"]
  | .cbrt | .erf | .gamma => none

/-- The operand stands between the pieces. -/
theorem luaCall?_eq (f : Builtin) (a : String) :
    luaCall? f a = (luaPieces? f).map a.intercalate := by
  cases f <;> rfl

namespace Expr

variable {f : Builtin} {op : BinaryOp} {a b : Expr (Complex R)} {p : Position} {s : String}

theorem exists_of_lua_neg (h : (neg a).lua = .ok s) :
    ∃ t, a.lua = .ok t ∧ s = parenthesized ("-" ++ t) := by
  simp only [lua] at h
  split at h
  · next t ht =>
    cases h
    exact ⟨t, ht, rfl⟩
  · cases h

theorem exists_of_lua_binary (h : (binary op a b p).lua = .ok s) :
    ∃ t r, a.lua = .ok t ∧ b.lua = .ok r ∧ s = parenthesized (t ++ op.symbol ++ r) := by
  simp only [lua] at h
  split at h
  · cases h
  · next t ht =>
    split at h
    · cases h
    · next r hr =>
      cases h
      exact ⟨t, r, ht, hr, rfl⟩

theorem exists_of_lua_call (h : (call f a p).lua = .ok s) :
    ∃ t pieces, a.lua = .ok t ∧ luaPieces? f = some pieces ∧ s = t.intercalate pieces := by
  simp only [lua] at h
  split at h
  · cases h
  · next t ht =>
    split at h
    · next r hr =>
      cases h
      rw [luaCall?_eq, Option.map_eq_some_iff] at hr
      obtain ⟨pieces, hpieces, rfl⟩ := hr
      exact ⟨t, pieces, ht, hpieces, rfl⟩
    · cases h

end Expr

/-- A number with a Lua numeral is finite and real. -/
theorem luaNumber_eq_ok {v : Complex R} {s : String} (h : luaNumber v = .ok s) :
    v.isFinite = true ∧ (v.im == 0) = true ∧
      s = if lt v.re 0 then parenthesized (text v.re) else text v.re := by
  unfold luaNumber at h
  split at h
  · cases h
  · next hfin =>
    split at h
    · cases h
    · next him =>
      have hfin' : v.isFinite = true := by simpa using hfin
      have him' : (v.im == 0) = true := by simpa [bne] using him
      split at h
      · next hlt =>
        cases h
        exact ⟨hfin', him', (if_pos hlt).symm⟩
      · next hlt =>
        cases h
        exact ⟨hfin', him', (if_neg hlt).symm⟩

end Formulary
