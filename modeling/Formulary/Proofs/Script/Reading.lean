import Formulary.Proofs.Arithmetic.TextLaws
import Formulary.Proofs.Expr.Reached
import Formulary.Proofs.Reading.Conventions
import Formulary.Proofs.Script.Tokens

/-!
# Lua expressions are read as their trees

In Lua a power binds tighter than a sign before it, and groups to the right; a sign binds tighter
than products and quotients, and these bind tighter than sums and differences. The Lua expression of
a tree is one expression of this grammar, whatever its functions paste together, and groups as the
tree does.

* `LuaTerm`: an expression of Lua. `luaConventions`: how tokens are read as one.
* `Builtin.luaTerm?`, `Expr.luaTerm?`: the expression that a function and a tree stand for.
* `IsLuaOperand ts t`: the tokens are an operand, wherever they stand.
* **`luaReads_of_lua`**: those of every tree are.
* **`reads_lua_iff`**: the text of a tree has one reading, the expression it stands for.
-/

namespace Formulary

open RealArith TokenMachine

universe u

/-! ### The grammar -/

/-- An expression of Lua, without its parentheses. -/
inductive LuaTerm where
  | numeral (text : List Char)
  | name (text : List Char)
  | neg (operand : LuaTerm)
  | binary (op : BinaryOp) (left right : LuaTerm)
  /-- A call of a function of the library `math`. -/
  | call (function : List Char) (operand : LuaTerm)
  | callTwo (function : List Char) (operand second : LuaTerm)
  deriving DecidableEq, Repr

/-- How tightly an operator of Lua binds the operand before it. -/
def BinaryOp.luaLeft : BinaryOp → Nat
  | add | sub => 10
  | mul | div => 11
  | pow => 14

/-- The limit for the operators in the operand behind an operator of Lua. -/
def BinaryOp.luaRight : BinaryOp → Nat
  | add | sub => 10
  | mul | div => 11
  | pow => 13

/-- The limit for the operators in the operand of a sign. -/
def luaSignLimit : Nat := 12

/-- The library of the functions. -/
def luaLibrary : List Char :=
  ['m', 'a', 't', 'h']

/-- What begins an operand in Lua, with what is still to be read of it. -/
abbrev LuaForm := Option (Form LuaToken LuaTerm × List LuaToken)

/-- A closing parenthesis makes the expression whole. -/
def luaClose (t : LuaTerm) : List LuaToken → LuaForm
  | .sign ')' :: ts => some (.whole t, ts)
  | _ => none

/-- What may stand behind the first operand of a call. -/
def luaArguments (f : List Char) (a : LuaTerm) : List LuaToken → LuaForm
  | .sign ')' :: ts => some (.whole (.call f a), ts)
  | .sign ',' :: ts => some (.part 0 fun b => luaClose (.callTwo f a b), ts)
  | _ => none

/-- What begins an operand: a numeral, a library call, a name, a parenthesis or a minus sign. -/
def luaOpening? : List LuaToken → LuaForm
  | .numeral cs :: ts => if isPlainNumeral cs then some (.whole (.numeral cs), ts) else none
  | .name cs :: .sign '.' :: .name f :: .sign '(' :: ts =>
    if cs = luaLibrary then some (.part 0 (luaArguments f), ts) else none
  | .name cs :: ts =>
    if String.ofList cs ∈ luaKeywords then none else some (.whole (.name cs), ts)
  | .sign '(' :: ts => some (.part 0 luaClose, ts)
  | .sign '-' :: ts => some (.part luaSignLimit fun a ts => some (.whole (.neg a), ts), ts)
  | _ => none

/-- The operator that a token stands for. -/
def LuaToken.binary? : LuaToken → Option BinaryOp
  | .sign c => (Operator.ofChar? c).bind Operator.binary?
  | _ => none

/-- The operator as it joins expressions. -/
def BinaryOp.luaJoiner (op : BinaryOp) : Joiner LuaTerm :=
  ⟨op.luaLeft, op.luaRight, .binary op⟩

/-- How Lua reads tokens. -/
def luaConventions : Conventions LuaToken LuaTerm where
  opening? := luaOpening?
  joiner?
    | t :: ts => t.binary?.map fun op => (op.luaJoiner, ts)
    | [] => none

/-! ### What trees stand for -/

/-- A numeral of given digits. -/
def LuaTerm.digits (s : String) : LuaTerm :=
  .numeral s.toList

/-- A call of the library function of that name. -/
def LuaTerm.math (f : String) (a : LuaTerm) : LuaTerm :=
  .call f.toList a

open LuaTerm in
/-- What a function of an operand is in Lua; the hyperbolic ones are spelled out. -/
def Builtin.luaTerm? (f : Builtin) (a : LuaTerm) : Option LuaTerm :=
  match f with
  | .sin => some (math "sin" a)
  | .cos => some (math "cos" a)
  | .tan => some (math "tan" a)
  | .arcsin => some (math "asin" a)
  | .arccos => some (math "acos" a)
  | .arctan => some (math "atan" a)
  | .sinh => some (.binary .div (.binary .sub (math "exp" a) (math "exp" (.neg a))) (digits "2"))
  | .cosh => some (.binary .div (.binary .add (math "exp" a) (math "exp" (.neg a))) (digits "2"))
  | .tanh =>
    let square := math "exp" (.binary .mul (digits "2") a)
    some (.binary .div (.binary .sub square (digits "1")) (.binary .add square (digits "1")))
  | .arcsinh =>
    let root := math "sqrt" (.binary .add (.binary .pow a (digits "2")) (digits "1"))
    some (math "log" (.binary .add a root))
  | .arccosh =>
    let root := math "sqrt" (.binary .sub (.binary .pow a (digits "2")) (digits "1"))
    some (math "log" (.binary .add a root))
  | .arctanh =>
    let quotient := .binary .div (.binary .add (digits "1") a) (.binary .sub (digits "1") a)
    some (.binary .mul (digits "0.5") (math "log" quotient))
  | .sqrt => some (math "sqrt" a)
  | .exp => some (math "exp" a)
  | .ln | .log => some (math "log" a)
  | .log10 => some (.callTwo "log".toList a (digits "10"))
  | .log2 => some (.callTwo "log".toList a (digits "2"))
  | .cbrt | .erf | .gamma => none

variable {R : Type u} [RealArith R]

/-- What a tree is in Lua. A negative number is a numeral with a sign. -/
def Expr.luaTerm? : Expr (Complex R) → Option LuaTerm
  | number v =>
    some <|
      if lt v.re 0 then .neg (.digits (RealArith.text (-v.re))) else .digits (RealArith.text v.re)
  | argument => some (.name argumentName.toList)
  | named name _ => some (.name name.toList)
  | neg a => a.luaTerm?.map .neg
  | binary op a b _ => a.luaTerm?.bind fun t => b.luaTerm?.map (.binary op t)
  | call f a _ => a.luaTerm?.bind f.luaTerm?

/-! ### Operands -/

/-- The tokens are an operand wherever no point stands behind them. -/
def IsLuaOperand (ts : List LuaToken) (t : LuaTerm) : Prop :=
  IsOperand luaConventions (fun us => us.head? ≠ some (.sign '.')) ts t

/-- The tokens fit where no point stands behind them. -/
def LuaFits (strength grip : Nat) (ts : List LuaToken) (t : LuaTerm) : Prop :=
  Fits luaConventions strength grip (fun us => us.head? ≠ some (.sign '.')) ts t

variable {ts us : List LuaToken} {t r : LuaTerm} {strength grip : Nat} {op : BinaryOp}

theorem IsLuaOperand.fits (h : IsLuaOperand ts t) (strength grip : Nat) :
    LuaFits strength grip ts t :=
  IsOperand.fits h strength grip

theorem isLuaOperand_numeral {cs : List Char} (h : isPlainNumeral cs = true) :
    IsLuaOperand [.numeral cs] (.numeral cs) := by
  intro us _
  refine .operand (f := .whole (.numeral cs)) ?_ .whole
  show luaOpening? (.numeral cs :: us) = _
  rw [luaOpening?, if_pos h]

theorem isLuaOperand_name {name : String} (h : IsLuaName name) :
    IsLuaOperand [.name name.toList] (.name name.toList) := by
  intro us hus
  refine .operand (f := .whole (.name name.toList)) ?_ .whole
  show luaOpening? (.name name.toList :: us) = _
  rw [luaOpening?, String.ofList_toList, if_neg h.not_keyword]
  rintro f ts rfl
  exact hus rfl

/-- An expression in parentheses is an operand. -/
theorem isLuaOperand_parenthesized (h : LuaFits strength grip ts t) (hs : 0 < strength) :
    IsLuaOperand (.sign '(' :: (ts ++ [.sign ')'])) t := by
  have hopen (vs : List LuaToken) :
      luaConventions.opening? ([.sign '('] ++ vs) = some (.part 0 luaClose, vs) := rfl
  exact IsOperand.enclosed [.sign '('] [.sign ')'] h hs hopen (fun _ => rfl) (fun _ => by simp)
    fun _ => rfl

/-- Signs in a row. -/
def signTokens (cs : List Char) : List LuaToken :=
  cs.map .sign

/-- The token of a numeral. -/
def digitTokens (n : String) : List LuaToken :=
  [.numeral n.toList]

/-- What a library call begins with. -/
def mathTokens (f : String) : List LuaToken :=
  [.name luaLibrary, .sign '.', .name f.toList, .sign '(']

theorem opening?_mathTokens (f : String) (vs : List LuaToken) :
    luaConventions.opening? (mathTokens f ++ vs) = some (.part 0 (luaArguments f.toList), vs) := by
  show luaOpening? (mathTokens f ++ vs) = _
  rw [mathTokens, List.cons_append, List.cons_append, List.cons_append, List.cons_append,
    luaOpening?, if_pos rfl, List.nil_append]

/-- A library call of an expression is an operand. -/
theorem isLuaOperand_math (f : String) (h : LuaFits strength grip ts t) (hs : 0 < strength) :
    IsLuaOperand (mathTokens f ++ (ts ++ [.sign ')'])) (.math f t) :=
  IsOperand.enclosed (mathTokens f) [.sign ')'] h hs (opening?_mathTokens f) (fun _ => rfl)
    (fun _ => by simp) fun _ => rfl

/-- So is one of two expressions. -/
theorem isLuaOperand_mathTwo (f : String) (h : LuaFits strength grip ts t) (hs : 0 < strength)
    (hr : IsLuaOperand us r) :
    IsLuaOperand (mathTokens f ++ (ts ++ ([.sign ','] ++ (us ++ [.sign ')']))))
      (.callTwo f.toList t r) := by
  have hsecond : IsRest luaConventions (fun us => us.head? ≠ some (.sign '.'))
      (.part 0 fun b => luaClose (.callTwo f.toList t b)) (us ++ ([.sign ')'] ++ []))
      (.callTwo f.toList t r) :=
    IsRest.part [.sign ')'] (hr.fits 1 0) Nat.one_pos (fun _ => rfl) isRest_whole
      (fun _ => by simp) fun _ => rfl
  have hfirst : IsRest luaConventions _ (.part 0 (luaArguments f.toList)) _ _ :=
    IsRest.part [.sign ','] h hs (fun _ => rfl) hsecond (fun _ => by simp) fun _ => rfl
  exact hfirst.isOperand (mathTokens f) (opening?_mathTokens f)

/-- An operand with a minus sign. -/
theorem luaFits_neg (h : IsLuaOperand ts t) (strength : Nat) :
    LuaFits strength luaSignLimit (.sign '-' :: ts) (.neg t) := by
  have hopen (vs : List LuaToken) : luaConventions.opening? ([.sign '-'] ++ vs) =
      some (.part luaSignLimit fun a ts => some (.whole (.neg a), ts), vs) := rfl
  exact Fits.signed [.sign '-'] (h.fits (luaSignLimit + 1) luaSignLimit) (Nat.lt_succ_self _) hopen
    fun _ => rfl

/-- An operand behind an operator, before which stands what binds tightly enough. -/
theorem luaFits_binary (c : Char) (op : BinaryOp) (hop : (LuaToken.sign c).binary? = some op)
    (h : LuaFits strength grip ts t) (hg : op.luaLeft ≤ grip) (hr : IsLuaOperand us r) :
    LuaFits (min op.luaLeft strength) op.luaRight (ts ++ ([.sign c] ++ us)) (.binary op t r) := by
  have hjoiner (vs : List LuaToken) :
      luaConventions.joiner? ([.sign c] ++ (us ++ vs)) = some (op.luaJoiner, us ++ vs) := by
    show (LuaToken.binary? (.sign c)).map _ = _
    rw [hop]
    rfl
  have hdot (vs : List LuaToken) :
      ([LuaToken.sign c] ++ (us ++ vs)).head? ≠ some (.sign '.') := by
    intro h
    cases h
    cases hop
  have hfits := Fits.join [.sign c] h (hr.fits (op.luaRight + 1) op.luaRight)
    (fun vs _ => hjoiner vs) (fun vs _ => hdot vs) hg (Nat.lt_succ_self _)
  rw [show min op.luaJoiner.right op.luaRight = op.luaRight from Nat.min_self _] at hfits
  exact hfits

/-- Two operands with an operator between them, in parentheses. -/
theorem isLuaOperand_binary (c : Char) (op : BinaryOp) (hop : (LuaToken.sign c).binary? = some op)
    (h : IsLuaOperand ts t) (hr : IsLuaOperand us r) :
    IsLuaOperand (.sign '(' :: (ts ++ ([.sign c] ++ us) ++ [.sign ')'])) (.binary op t r) :=
  isLuaOperand_parenthesized (luaFits_binary c op hop (h.fits op.luaLeft op.luaLeft) le_rfl hr)
    (by cases op <;> decide)

/-! ### Functions -/

variable {tokens : List (List LuaToken)}

theorem isLuaOperand_digits (n : String) (h : isPlainNumeral n.toList = true) :
    IsLuaOperand (digitTokens n) (.digits n) :=
  isLuaOperand_numeral h

/-- A library function of the operand. -/
theorem isLuaOperand_plain (f : String) (h : IsLuaOperand ts t)
    (htokens : tokens = [mathTokens f, signTokens [')']]) :
    IsLuaOperand (ts.intercalate tokens) (.math f t) := by
  subst htokens
  simpa [List.intercalate_cons_cons, signTokens, digitTokens] using
    isLuaOperand_math f (h.fits 1 0) Nat.one_pos

/-- The logarithm of the operand to a base. -/
theorem isLuaOperand_base (n : String) (hn : isPlainNumeral n.toList = true)
    (h : IsLuaOperand ts t)
    (htokens : tokens = [mathTokens "log", signTokens [','] ++ digitTokens n ++ signTokens [')']]) :
    IsLuaOperand (ts.intercalate tokens) (.callTwo "log".toList t (.digits n)) := by
  subst htokens
  simpa [List.intercalate_cons_cons, signTokens, digitTokens] using
    isLuaOperand_mathTwo "log" (h.fits 1 0) Nat.one_pos (isLuaOperand_digits n hn)

/-- The sum or difference of the exponentials of an operand and its opposite, by two. -/
theorem isLuaOperand_exponentials (c : Char) (op : BinaryOp)
    (hop : (LuaToken.sign c).binary? = some op) (h : IsLuaOperand ts t)
    (htokens : tokens = [signTokens ['(', '('] ++ mathTokens "exp",
      signTokens [')', c] ++ mathTokens "exp" ++ signTokens ['-'],
      signTokens [')', ')', '/'] ++ digitTokens "2" ++ signTokens [')']]) :
    IsLuaOperand (ts.intercalate tokens)
      (.binary .div (.binary op (.math "exp" t) (.math "exp" (.neg t))) (.digits "2")) := by
  subst htokens
  have hexp := isLuaOperand_math "exp" (h.fits 1 0) Nat.one_pos
  have hopposite := isLuaOperand_math "exp" (luaFits_neg h 1) Nat.one_pos
  have hgroup := isLuaOperand_binary c op hop hexp hopposite
  have hhalf := isLuaOperand_binary '/' .div rfl hgroup (isLuaOperand_digits "2" (by decide))
  simpa [List.intercalate_cons_cons, signTokens, digitTokens] using hhalf

/-- The exponential of twice the operand, less one, by itself with one more. -/
theorem isLuaOperand_tanh (h : IsLuaOperand ts t)
    (htokens : tokens =
      [signTokens ['(', '('] ++ mathTokens "exp" ++ digitTokens "2" ++ signTokens ['*'],
      signTokens [')', '-'] ++ digitTokens "1" ++ signTokens [')', '/', '('] ++ mathTokens "exp" ++
        digitTokens "2" ++ signTokens ['*'],
      signTokens [')', '+'] ++ digitTokens "1" ++ signTokens [')', ')']]) :
    IsLuaOperand (ts.intercalate tokens)
      (.binary .div
        (.binary .sub (.math "exp" (.binary .mul (.digits "2") t)) (.digits "1"))
        (.binary .add (.math "exp" (.binary .mul (.digits "2") t)) (.digits "1"))) := by
  subst htokens
  have hone := isLuaOperand_digits "1" (by decide)
  have htwice := luaFits_binary '*' .mul rfl
    ((isLuaOperand_digits "2" (by decide)).fits 20 20) (by decide) h
  have hsquare := isLuaOperand_math "exp" htwice (by decide)
  have hless := isLuaOperand_binary '-' .sub rfl hsquare hone
  have hmore := isLuaOperand_binary '+' .add rfl hsquare hone
  simpa [List.intercalate_cons_cons, signTokens, digitTokens] using
    isLuaOperand_binary '/' .div rfl hless hmore

/-- The logarithm of the operand and the root of its square with one more or less. -/
theorem isLuaOperand_root (c : Char) (op : BinaryOp) (hop : (LuaToken.sign c).binary? = some op)
    (hleft : op.luaLeft ≤ BinaryOp.pow.luaRight) (h : IsLuaOperand ts t)
    (htokens : tokens = [mathTokens "log", signTokens ['+'] ++ mathTokens "sqrt",
      signTokens ['^'] ++ digitTokens "2" ++ signTokens [c] ++ digitTokens "1" ++
        signTokens [')', ')']]) :
    IsLuaOperand (ts.intercalate tokens)
      (.math "log" (.binary .add t
        (.math "sqrt" (.binary op (.binary .pow t (.digits "2")) (.digits "1"))))) := by
  subst htokens
  have hsquare := luaFits_binary '^' .pow rfl (h.fits 20 20) (by decide)
    (isLuaOperand_digits "2" (by decide))
  have hradicand := luaFits_binary c op hop hsquare hleft (isLuaOperand_digits "1" (by decide))
  have hroot := isLuaOperand_math "sqrt" hradicand (by cases op <;> decide)
  have hsum := luaFits_binary '+' .add rfl (h.fits 20 20) (by decide) hroot
  simpa [List.intercalate_cons_cons, signTokens, digitTokens] using
    isLuaOperand_math "log" hsum (by decide)

/-- Half the logarithm of one and the operand by one without it. -/
theorem isLuaOperand_arctanh (h : IsLuaOperand ts t)
    (htokens : tokens =
      [signTokens ['('] ++ digitTokens "0.5" ++ signTokens ['*'] ++ mathTokens "log" ++
        signTokens ['('] ++ digitTokens "1" ++ signTokens ['+'],
      signTokens [')', '/', '('] ++ digitTokens "1" ++ signTokens ['-'],
      signTokens [')', ')', ')']]) :
    IsLuaOperand (ts.intercalate tokens)
      (.binary .mul (.digits "0.5") (.math "log"
        (.binary .div (.binary .add (.digits "1") t) (.binary .sub (.digits "1") t)))) := by
  subst htokens
  have hone := isLuaOperand_digits "1" (by decide)
  have hmore := isLuaOperand_binary '+' .add rfl hone h
  have hless := isLuaOperand_binary '-' .sub rfl hone h
  have hquotient := luaFits_binary '/' .div rfl (hmore.fits 20 20) (by decide) hless
  have hlog := isLuaOperand_math "log" hquotient (by decide)
  simpa [List.intercalate_cons_cons, signTokens, digitTokens] using
    isLuaOperand_binary '*' .mul rfl (isLuaOperand_digits "0.5" (by decide)) hlog

/-- Whatever a function pastes together around its operand is an operand. -/
theorem isLuaOperand_call {f : Builtin} {pieces : List String} (h : IsLuaOperand ts t)
    (hpieces : luaPieces? f = some pieces) :
    ∃ r, f.luaTerm? t = some r ∧
      IsLuaOperand (ts.intercalate (pieces.map luaMachine.tokens)) r := by
  cases f with
  | cbrt => cases hpieces
  | erf => cases hpieces
  | gamma => cases hpieces
  | sinh =>
    cases hpieces
    exact ⟨_, rfl, isLuaOperand_exponentials '-' .sub rfl h (by decide +kernel)⟩
  | cosh =>
    cases hpieces
    exact ⟨_, rfl, isLuaOperand_exponentials '+' .add rfl h (by decide +kernel)⟩
  | tanh =>
    cases hpieces
    exact ⟨_, rfl, isLuaOperand_tanh h (by decide +kernel)⟩
  | arcsinh =>
    cases hpieces
    exact ⟨_, rfl, isLuaOperand_root '+' .add rfl (by decide) h (by decide +kernel)⟩
  | arccosh =>
    cases hpieces
    exact ⟨_, rfl, isLuaOperand_root '-' .sub rfl (by decide) h (by decide +kernel)⟩
  | arctanh =>
    cases hpieces
    exact ⟨_, rfl, isLuaOperand_arctanh h (by decide +kernel)⟩
  | log10 =>
    cases hpieces
    exact ⟨_, rfl, isLuaOperand_base "10" (by decide) h (by decide +kernel)⟩
  | log2 =>
    cases hpieces
    exact ⟨_, rfl, isLuaOperand_base "2" (by decide) h (by decide +kernel)⟩
  | _ =>
    cases hpieces
    exact ⟨_, rfl, isLuaOperand_plain _ h (by decide +kernel)⟩

/-! ### Trees -/

/-- The text may stand between pieces, and its tokens are an operand with the expression that the
tree stands for. -/
structure LuaReads (a : Expr (Complex R)) (s : String) : Prop where
  body : IsLuaBody s
  operand : ∃ t, a.luaTerm? = some t ∧ IsLuaOperand (luaMachine.tokens s) t

variable {s : String}

/-- A text between pieces that are complete at their end. -/
theorem isLuaBody_intercalate {p : String} {ps : List String} {c : Char} (h : IsLuaBody s)
    (hends : ∀ q ∈ p :: ps, EndsPiece q) (hbegins : ∀ q ∈ ps, BeginsPiece q)
    (hlast : ∀ q ∈ (p :: ps).getLast?, luaMachine.pending q = .nothing) (hc : c ∈ p.toList.head?)
    (hne : c ≠ '-') : IsLuaBody (s.intercalate (p :: ps)) := by
  refine isLuaBody_of_complete ?_ hne (luaPending_intercalate h hends hbegins hlast)
  obtain ⟨cs, hcs⟩ := List.head?_eq_some_iff.1 hc
  cases ps with
  | nil => rwa [String.intercalate_singleton]
  | cons q qs =>
    rw [String.intercalate_cons_cons, String.toList_append, String.toList_append, hcs]
    rfl

/-- The pieces of the functions. -/
theorem luaPieces_tokens {f : Builtin} {pieces : List String} (h : luaPieces? f = some pieces) :
    ∃ p ps, pieces = p :: ps ∧ (∀ q ∈ p :: ps, EndsPiece q) ∧ (∀ q ∈ ps, BeginsPiece q) ∧
      (∀ q ∈ (p :: ps).getLast?, luaMachine.pending q = .nothing) ∧
      ∃ c ∈ p.toList.head?, c ≠ '-' := by
  cases f <;> cases h <;>
    exact ⟨_, _, rfl, by decide +kernel, by decide +kernel, by decide +kernel, _, rfl, by decide⟩

/-- A minus sign and a text in parentheses. -/
theorem luaReads_negated {t : LuaTerm} (hs : IsLuaBody s)
    (h : IsLuaOperand (luaMachine.tokens s) t) :
    IsLuaBody (parenthesized ("-" ++ s)) ∧
      IsLuaOperand (luaMachine.tokens (parenthesized ("-" ++ s))) (.neg t) := by
  have htext : parenthesized ("-" ++ s) = s.intercalate ["(-", ")"] := by
    unfold parenthesized
    rw [← String.append_assoc]
    rfl
  have hends : ∀ q ∈ ["(-", ")"], EndsPiece q := by decide +kernel
  have hbegins : ∀ q ∈ [")"], BeginsPiece q := by decide +kernel
  have htokens : ["(-", ")"].map luaMachine.tokens = [[.sign '(', .sign '-'], [.sign ')']] := by
    decide +kernel
  rw [htext, luaTokens_intercalate hs hends hbegins, htokens]
  refine ⟨isLuaBody_intercalate (c := '(') hs hends hbegins (by decide +kernel) (by decide)
    (by decide), ?_⟩
  simpa [List.intercalate_cons_cons] using
    isLuaOperand_parenthesized (luaFits_neg h 1) Nat.one_pos

/-- Two texts with an operator between them in parentheses. -/
theorem luaReads_binary {op : BinaryOp} {r : String} {t u : LuaTerm} (hs : IsLuaBody s)
    (h : IsLuaOperand (luaMachine.tokens s) t) (hr : IsLuaBody r)
    (h' : IsLuaOperand (luaMachine.tokens r) u) :
    IsLuaBody (parenthesized (s ++ op.symbol ++ r)) ∧
      IsLuaOperand (luaMachine.tokens (parenthesized (s ++ op.symbol ++ r))) (.binary op t u) := by
  obtain ⟨c, hc, htokens⟩ : ∃ c, (LuaToken.sign c).binary? = some op ∧
      luaMachine.tokens op.symbol = [.sign c] := by
    cases op
    · exact ⟨'+', by decide +kernel⟩
    · exact ⟨'-', by decide +kernel⟩
    · exact ⟨'*', by decide +kernel⟩
    · exact ⟨'/', by decide +kernel⟩
    · exact ⟨'^', by decide +kernel⟩
  have hsign : BeginsPiece op.symbol ∧ EndsPiece op.symbol := by cases op <;> decide +kernel
  have hopen : luaMachine.Parts "(" s := parts_of_endsPiece (by decide +kernel) hs
  have hleft : luaMachine.Parts s op.symbol := parts_of_beginsPiece hs hsign.1
  have hright : luaMachine.Parts (s ++ op.symbol) r :=
    .append_left hleft (parts_of_endsPiece hsign.2 hr)
  have hclose : luaMachine.Parts (s ++ op.symbol ++ r) ")" :=
    .append_left hright (parts_of_beginsPiece hr (by decide +kernel))
  have hinner : luaMachine.Parts "(" (s ++ op.symbol ++ r) := hopen.append_right.append_right
  have hend : luaMachine.Parts ("(" ++ (s ++ op.symbol ++ r)) ")" := .append_left hinner hclose
  unfold parenthesized
  constructor
  · refine isLuaBody_of_complete (c := '(') ?_ (by decide) ?_
    · rw [String.toList_append, String.toList_append]
      rfl
    · rw [pending_append hend]
      rfl
  · rw [tokens_append hend, tokens_append hinner, tokens_append hright,
      tokens_append hleft, htokens]
    have hparens : luaMachine.tokens "(" = [.sign '('] ∧ luaMachine.tokens ")" = [.sign ')'] := by
      decide +kernel
    rw [hparens.1, hparens.2]
    simpa using isLuaOperand_binary c op hc h h'

variable [TextLaws R]

/-- The text of a number is a numeral, with a sign and parentheses if it is negative. -/
theorem luaReads_number {v : Complex R} (hzero : v.noMinusZero = true)
    (h : luaNumber v = .ok s) : LuaReads (.number v) s := by
  obtain ⟨hfin, -, rfl⟩ := luaNumber_eq_ok h
  have hre := (Complex.isFinite_iff.1 hfin).1
  have hplain {r : R} (hr : RealArith.isFinite r = true) (hlt : lt r 0 = false)
      (hminus : isMinusZero r = false) :
      IsLuaBody (text r) ∧ IsLuaOperand (luaMachine.tokens (text r)) (.digits (text r)) := by
    have hnumeral := TextLaws.isPlainNumeral_text r hr hlt hminus
    obtain ⟨htokens, hbody⟩ := luaTokens_numeral hnumeral
    rw [htokens]
    exact ⟨hbody, isLuaOperand_numeral hnumeral⟩
  split
  · next hlt =>
    -- The numeral is that of the opposite number, which is positive.
    have hpositive : lt (-v.re) 0 = false := by
      rw [SignLaws.neg_lt_zero]
      exact not_zero_lt_of_lt_zero hlt
    have hminus : isMinusZero (-v.re) = false := by
      have hnot := SignLaws.lt_zero_and_beq_zero v.re
      rw [hlt, Bool.true_and] at hnot
      rw [isMinusZero, SignLaws.neg_beq, SignLaws.beq_neg_zero, hnot, Bool.false_and]
    obtain ⟨hbody, hoperand⟩ := hplain ((SignLaws.isFinite_neg v.re).trans hre) hpositive hminus
    rw [ZeroLaws.text_eq_neg v.re hlt]
    obtain ⟨hbody', hoperand'⟩ := luaReads_negated hbody hoperand
    exact ⟨hbody', _, congrArg some (if_pos hlt), hoperand'⟩
  · next hlt =>
    obtain ⟨hbody, hoperand⟩ :=
      hplain hre (Bool.eq_false_iff.2 hlt) (Complex.noMinusZero_iff.1 hzero).1
    exact ⟨hbody, _, congrArg some (if_neg hlt), hoperand⟩

/-- What is asked of the leaves of a tree. -/
def luaLeaves : LeafProperty (Complex R) where
  number v := v.noMinusZero = true
  name := IsLuaName
  function _ := True

omit [TextLaws R] in
theorem isLuaName_argumentName : IsLuaName argumentName :=
  ⟨⟨'x', rfl, by decide⟩, List.forall_mem_singleton.2 (by decide), by decide⟩

/-- The text of every tree is read as one operand. -/
theorem luaReads_of_lua {a : Expr (Complex R)} (ha : a.LeavesHold luaLeaves)
    (h : a.lua = .ok s) : LuaReads a s := by
  have hname {n : String} (hn : IsLuaName n) :
      IsLuaBody n ∧ IsLuaOperand (luaMachine.tokens n) (.name n.toList) := by
    obtain ⟨htokens, hbody⟩ := luaTokens_name hn
    rw [htokens]
    exact ⟨hbody, isLuaOperand_name hn⟩
  induction a generalizing s with
  | number v => exact luaReads_number ha h
  | argument =>
    cases h
    obtain ⟨hbody, hoperand⟩ := hname isLuaName_argumentName
    exact ⟨hbody, _, rfl, hoperand⟩
  | named n p =>
    cases h
    obtain ⟨hbody, hoperand⟩ := hname ha
    exact ⟨hbody, _, rfl, hoperand⟩
  | neg a ih =>
    obtain ⟨r, hr, rfl⟩ := Expr.exists_of_lua_neg h
    obtain ⟨hbody, t, ht, hoperand⟩ := ih ha hr
    obtain ⟨hbody', hoperand'⟩ := luaReads_negated hbody hoperand
    exact ⟨hbody', _, by rw [Expr.luaTerm?, ht]; rfl, hoperand'⟩
  | binary op a b p iha ihb =>
    obtain ⟨r, r', hr, hr', rfl⟩ := Expr.exists_of_lua_binary h
    obtain ⟨hbody, t, ht, hoperand⟩ := iha ha.1 hr
    obtain ⟨hbody', u, hu, hoperand'⟩ := ihb ha.2 hr'
    obtain ⟨hwhole, hreads⟩ := luaReads_binary hbody hoperand hbody' hoperand'
    exact ⟨hwhole, _, by rw [Expr.luaTerm?, ht, hu]; rfl, hreads⟩
  | call f a p ih =>
    obtain ⟨r, pieces, hr, hpieces, rfl⟩ := Expr.exists_of_lua_call h
    obtain ⟨hbody, t, ht, hoperand⟩ := ih ha.2 hr
    obtain ⟨u, hu, hreads⟩ := isLuaOperand_call hoperand hpieces
    obtain ⟨q, qs, rfl, hends, hbegins, hlast, c, hc, hne⟩ := luaPieces_tokens hpieces
    refine ⟨isLuaBody_intercalate hbody hends hbegins hlast hc hne, u, ?_, ?_⟩
    · rw [Expr.luaTerm?, ht]
      exact hu
    · rw [luaTokens_intercalate hbody hends hbegins]
      exact hreads

/-- The Lua expression of a tree with plain names and no negative zero is one expression of Lua, in
one way: the one that the tree stands for. -/
theorem reads_lua_iff {a : Expr (Complex R)}
    (hzero : ∀ v, .number v ∈ a.subtrees → v.noMinusZero = true)
    (hnames : ∀ n ∈ a.variableNames, IsLuaName n) (h : a.lua = .ok s) :
    ∃ t, a.luaTerm? = some t ∧ ∀ r rest,
      Reads luaConventions (.expr 0) (luaMachine.tokens s) r rest ↔ r = t ∧ rest = [] := by
  have hleaves : a.LeavesHold luaLeaves :=
    Expr.leavesHold_of_leaves hzero
      (fun n p hmem => hnames n (Expr.mem_variableNames_iff.2 ⟨p, hmem⟩)) fun _ _ _ _ => trivial
  obtain ⟨-, t, ht, hoperand⟩ := luaReads_of_lua hleaves h
  exact ⟨t, ht, fun _ _ => (hoperand.fits 1 0).reads_iff Nat.one_pos (by simp) rfl⟩

/-- Machine numbers have the laws: a power of minus one by a hyperbolic sine is read as one. -/
theorem reads_lua_iff_power :
    ∃ (a : Expr (Complex Double)) (s : String), a.lua = .ok s ∧
      (∀ v, .number v ∈ a.subtrees → v.noMinusZero = true) ∧
      (∀ n ∈ a.variableNames, IsLuaName n) ∧
      ∃ t, a.luaTerm? = some t ∧ ∀ r rest,
        Reads luaConventions (.expr 0) (luaMachine.tokens s) r rest ↔ r = t ∧ rest = [] := by
  let base : Expr (Complex Double) := .number ⟨-1, 0⟩
  let a : Expr (Complex Double) := .toPower base (.applied .sinh .argument)
  have hlua : a.lua = .ok "((-1)^((math.exp(x)-math.exp(-x))/2))" := by decide +kernel
  have hzero : ∀ v, .number v ∈ a.subtrees → v.noMinusZero = true := by
    intro v hv
    obtain rfl : v = ⟨-1, 0⟩ := by
      simpa [a, base, Expr.toPower, Expr.applied, Expr.subtrees] using hv
    decide +kernel
  have hnames : ∀ n ∈ a.variableNames, IsLuaName n := fun _ hn => absurd hn List.not_mem_nil
  exact ⟨a, _, hlua, hzero, hnames, reads_lua_iff hzero hnames hlua⟩

end Formulary
