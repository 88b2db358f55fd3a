import Formulary.Binary64.Arith
import Formulary.Proofs.Arithmetic.ZeroLaws
import Formulary.Proofs.Expr.Subtrees
import Formulary.Proofs.Program.RealMode
import Formulary.Proofs.Script.Pieces

/-!
# Trees and tables without a Lua chunk

A tree has a Lua expression unless it has a number that is not finite and real, or calls one of three
functions, and of several such nodes the first one in the order of evaluation is reported. A chunk
needs real values for the variables that the tree reads, but does not ask for finite ones.

* `withoutLua`: the functions without a Lua expression (`luaPieces?_eq_none_iff`).
* `Expr.luaFault?`, `Expr.firstLuaFault?`: the error of one node, and the first one in a tree.
* `LuaPart`, `luaText`: the parts of a text, with the numbers written in it.
* `Expr.luaParts`, `Expr.luaChunkParts`: those of an expression and of a chunk.
* `lua_eq`, `luaLocals_eq`: what is written, or the first error.
* **`luaChunk_eq_ok_iff`**: when there is a chunk, the numbers in it, and the errors.
* **`luaChunk_infinite`**: a chunk with an infinite number in it.
-/

namespace Formulary

open RealArith

universe u

variable {R : Type u}

/-- The functions that no Lua expression is given for. -/
def withoutLua : List Builtin :=
  [.cbrt, .erf, .gamma]

theorem luaPieces?_eq_none_iff {f : Builtin} : luaPieces? f = none ↔ f ∈ withoutLua := by
  cases f <;> simp [luaPieces?, withoutLua]

/-! ### Parts of a text -/

/-- A part of a text in Lua. -/
inductive LuaPart (R : Type u) where
  | fixed (text : String)
  | name (text : String)
  /-- A number that comes from the tree or from the table. -/
  | numeral (value : R)

variable [RealArith R]

/-- A part as it is written. -/
def LuaPart.text : LuaPart R → String
  | fixed s => s
  | name s => s
  | numeral r => RealArith.text r

/-- The text of parts in turn. -/
def luaText (parts : List (LuaPart R)) : String :=
  String.ofList (parts.flatMap fun part => part.text.toList)

theorem luaText_nil : luaText ([] : List (LuaPart R)) = "" :=
  rfl

theorem luaText_append (ps qs : List (LuaPart R)) :
    luaText (ps ++ qs) = luaText ps ++ luaText qs := by
  unfold luaText
  rw [List.flatMap_append, String.ofList_append]

theorem luaText_cons (p : LuaPart R) (ps : List (LuaPart R)) :
    luaText (p :: ps) = p.text ++ luaText ps := by
  unfold luaText
  rw [List.flatMap_cons, String.ofList_append, String.ofList_toList]

/-- An operand between pieces. -/
def luaBetween (pieces : List String) (operand : List (LuaPart R)) : List (LuaPart R) :=
  operand.intercalate (pieces.map fun piece => [.fixed piece])

theorem luaText_between (pieces : List String) (operand : List (LuaPart R)) :
    luaText (luaBetween pieces operand) = (luaText operand).intercalate pieces := by
  unfold luaBetween
  induction pieces with
  | nil => rfl
  | cons p ps ih =>
    cases ps with
    | nil => simp [luaText_cons, luaText_nil, LuaPart.text]
    | cons q qs =>
      rw [String.intercalate_cons_cons, ← ih, List.map_cons, List.map_cons,
        List.intercalate_cons_cons, luaText_append, luaText_append, luaText_cons, luaText_nil,
        String.append_empty]
      rfl

omit [RealArith R] in
theorem mem_of_numeral_mem_between {pieces : List String} {operand : List (LuaPart R)} {r : R}
    (h : .numeral r ∈ luaBetween pieces operand) : .numeral r ∈ operand := by
  unfold luaBetween at h
  induction pieces with
  | nil => simp at h
  | cons p ps ih =>
    cases ps with
    | nil => simp at h
    | cons q qs =>
      rw [List.map_cons, List.map_cons, List.intercalate_cons_cons, List.mem_append,
        List.mem_append] at h
      rcases h with (h | h) | h
      · cases List.mem_singleton.1 h
      · exact h
      · exact ih h

/-! ### Expressions -/

namespace Expr

/-- The error of a node that has no Lua expression whatever its operands are. -/
def luaFault? : Expr (Complex R) → Option ScriptError
  | number v =>
    if !v.isFinite then some (.nonFinite v.label)
    else if v.im != 0 then some (.complexLiteral (numberText v))
    else none
  | call f _ _ => if f ∈ withoutLua then some (.unsupportedFunction f) else none
  | _ => none

/-- The error of the first such node, operands before operators and left before right. -/
def firstLuaFault? (a : Expr (Complex R)) : Option ScriptError :=
  a.visits.findSome? luaFault?

/-- The parts of the Lua expression of a tree. -/
def luaParts : Expr (Complex R) → List (LuaPart R)
  | number v => if lt v.re 0 then [.fixed "(", .numeral v.re, .fixed ")"] else [.numeral v.re]
  | argument => [.name argumentName]
  | named name _ => [.name name]
  | neg a => .fixed "(" :: .fixed "-" :: (a.luaParts ++ [.fixed ")"])
  | binary op a b _ =>
    .fixed "(" :: (a.luaParts ++ .fixed op.symbol :: (b.luaParts ++ [.fixed ")"]))
  | call f a _ => luaBetween ((luaPieces? f).getD []) a.luaParts

variable {a b s : Expr (Complex R)} {e : ScriptError}

theorem firstLuaFault?_neg (a : Expr (Complex R)) : (neg a).firstLuaFault? = a.firstLuaFault? := by
  unfold firstLuaFault?
  rw [visits, List.findSome?_append]
  exact Option.or_none

theorem firstLuaFault?_binary (op : BinaryOp) (a b : Expr (Complex R)) (p : Position) :
    (binary op a b p).firstLuaFault? = a.firstLuaFault?.or b.firstLuaFault? := by
  unfold firstLuaFault?
  rw [visits, List.findSome?_append, List.findSome?_append]
  exact congrArg _ Option.or_none

theorem firstLuaFault?_call (f : Builtin) (a : Expr (Complex R)) (p : Position) :
    (call f a p).firstLuaFault? = a.firstLuaFault?.or (call f a p).luaFault? := by
  unfold firstLuaFault?
  rw [visits, List.findSome?_append, List.findSome?_singleton]

/-- A number has a Lua numeral if it is finite and real. -/
theorem lua_number (v : Complex R) : (number v).lua =
    match (number v).luaFault? with
    | some e => .error e
    | none => .ok (luaText (number v).luaParts) := by
  rw [lua, luaNumber, luaFault?, luaParts]
  cases v.isFinite with
  | false => rfl
  | true =>
    cases v.im != 0 with
    | true => rfl
    | false =>
      cases lt v.re 0 with
      | true => simp [luaText_cons, luaText_nil, LuaPart.text, parenthesized, String.append_assoc]
      | false => simp [luaText_cons, luaText_nil, LuaPart.text]

/-- A tree has the Lua expression of its parts, or the error of its first node with one. -/
theorem lua_eq (a : Expr (Complex R)) : a.lua =
    match a.firstLuaFault? with
    | some e => .error e
    | none => .ok (luaText a.luaParts) := by
  -- an error of an operand is passed on, and of two operands the left one is written first
  induction a with
  | number v =>
    have hfault : (number v).firstLuaFault? = (number v).luaFault? := List.findSome?_singleton
    rw [lua_number, hfault]
  | argument => simp [lua, firstLuaFault?, visits, luaFault?, luaParts, luaText_cons, luaText_nil,
      LuaPart.text]
  | named n p => simp [lua, firstLuaFault?, visits, luaFault?, luaParts, luaText_cons, luaText_nil,
      LuaPart.text]
  | neg a ih =>
    rw [lua, ih, firstLuaFault?_neg]
    cases a.firstLuaFault? with
    | some e => rfl
    | none => simp [luaParts, luaText_cons, luaText_append, luaText_nil, LuaPart.text,
        parenthesized, String.append_assoc]
  | binary op a b p iha ihb =>
    rw [lua, iha, ihb, firstLuaFault?_binary]
    cases a.firstLuaFault? with
    | some e => rfl
    | none =>
      cases b.firstLuaFault? with
      | some e => rfl
      | none => simp [luaParts, luaText_cons, luaText_append, luaText_nil, LuaPart.text,
          parenthesized, String.append_assoc]
  | call f a p ih =>
    rw [lua, ih, firstLuaFault?_call]
    cases a.firstLuaFault? with
    | some e => rfl
    | none =>
      simp only [luaCall?_eq, Option.none_or, luaFault?, ← luaPieces?_eq_none_iff, luaParts]
      cases luaPieces? f with
      | none => rfl
      | some pieces => simp [luaText_between]

/-- The first node with an error has none with one before it. -/
theorem lua_eq_error_iff : a.lua = .error e ↔
    ∃ before s after, a.visits = before ++ s :: after ∧ s.luaFault? = some e ∧
      ∀ t ∈ before, t.luaFault? = none := by
  have hfirst : a.lua = .error e ↔ a.firstLuaFault? = some e := by
    rw [lua_eq]
    cases a.firstLuaFault? with
    | some e' => simp
    | none => simp
  rw [hfirst, firstLuaFault?, List.findSome?_eq_some_iff]

theorem luaFault?_eq_none_iff : a.luaFault? = none ↔
    (∀ v, a = number v → v.isFinite = true ∧ (v.im == 0) = true) ∧
      ∀ f b p, a = call f b p → f ∉ withoutLua := by
  cases a with
  | number v =>
    rw [luaFault?]
    cases hfin : v.isFinite with
    | false => simp [hfin]
    | true =>
      cases him : v.im == 0 with
      | true => simp [bne, hfin, him]
      | false => simp [bne, him]
  | call f b p => simp [luaFault?]
  | _ => simp [luaFault?]

/-- A tree has no error exactly if all its numbers are finite and real and it calls none of the
three functions. -/
theorem firstLuaFault?_eq_none_iff : a.firstLuaFault? = none ↔
    (∀ v, number v ∈ a.subtrees → v.isFinite = true ∧ (v.im == 0) = true) ∧
      ∀ f b p, call f b p ∈ a.subtrees → f ∉ withoutLua := by
  rw [firstLuaFault?, List.findSome?_eq_none_iff]
  simp only [luaFault?_eq_none_iff, (visits_perm a).mem_iff]
  constructor
  · intro h
    exact ⟨fun v hv => (h _ hv).1 v rfl, fun f b p hf => (h _ hf).2 f b p rfl⟩
  · rintro ⟨hnumber, hcall⟩ s hs
    exact ⟨fun v hv => hnumber v (hv ▸ hs), fun f b p hf => hcall f b p (hf ▸ hs)⟩

/-- The numbers in the expression are real parts of numbers in the tree. -/
theorem exists_of_numeral_mem_luaParts {r : R} (h : .numeral r ∈ a.luaParts) :
    ∃ v, number v ∈ a.subtrees ∧ v.re = r := by
  induction a with
  | number v =>
    rw [luaParts] at h
    have hr : v.re = r := by
      split at h
      · simpa [eq_comm] using h
      · simpa [eq_comm] using h
    exact ⟨v, mem_subtrees_self _, hr⟩
  | argument => simp [luaParts] at h
  | named n p => simp [luaParts] at h
  | neg a ih =>
    obtain ⟨v, hv, hr⟩ := ih (by simpa [luaParts] using h)
    exact ⟨v, .tail _ hv, hr⟩
  | binary op a b p iha ihb =>
    have h : .numeral r ∈ a.luaParts ∨ .numeral r ∈ b.luaParts := by simpa [luaParts] using h
    rcases h with h | h
    · obtain ⟨v, hv, hr⟩ := iha h
      exact ⟨v, .tail _ (List.mem_append_left _ hv), hr⟩
    · obtain ⟨v, hv, hr⟩ := ihb h
      exact ⟨v, .tail _ (List.mem_append_right _ hv), hr⟩
  | call f a p ih =>
    obtain ⟨v, hv, hr⟩ := ih (mem_of_numeral_mem_between h)
    exact ⟨v, .tail _ hv, hr⟩

/-! ### Bindings -/

/-- The error of a name that is bound to a number that is not real. -/
def bindingFault? (vars : Vars (Complex R)) (name : String) : Option ScriptError :=
  match vars.get? name with
  | some v => if v.im != 0 then some (.complexLiteral (name ++ "=" ++ v.label)) else none
  | none => none

/-- The parts of the line that binds a name. -/
def localParts (vars : Vars (Complex R)) (name : String) : List (LuaPart R) :=
  match vars.get? name with
  | some v => [.fixed "local ", .name name, .fixed " = ", .numeral v.re, .fixed "\n"]
  | none => []

/-- The lines are those of the names, or the error of the first name with one. -/
theorem luaLocals_eq (vars : Vars (Complex R)) (names : List String) : luaLocals vars names =
    match names.findSome? (bindingFault? vars) with
    | some e => .error e
    | none => .ok (luaText (names.flatMap (localParts vars))) := by
  induction names with
  | nil => rfl
  | cons name names ih =>
    rw [luaLocals, List.findSome?_cons, List.flatMap_cons, luaText_append, ih, bindingFault?,
      localParts]
    cases vars.get? name with
    | none => simp [luaText_nil]
    | some v =>
      dsimp only
      cases v.im != 0 with
      | true => rfl
      | false =>
        cases names.findSome? (bindingFault? vars) with
        | some e => rfl
        | none => simp [luaText_cons, luaText_nil, LuaPart.text, String.append_assoc]

/-- The parts of a chunk. -/
def luaChunkParts (a : Expr (Complex R)) (vars : Vars (Complex R)) : List (LuaPart R) :=
  a.variableNames.flatMap (localParts vars) ++
    .fixed "return function(x) return " :: (a.luaParts ++ [.fixed " end\n"])

/-- The error of the tree is reported before those of the bindings. -/
theorem luaChunk_eq (a : Expr (Complex R)) (vars : Vars (Complex R)) : a.luaChunk vars =
    match a.firstLuaFault?.or (a.variableNames.findSome? (bindingFault? vars)) with
    | some e => .error e
    | none => .ok (luaText (a.luaChunkParts vars)) := by
  rw [luaChunk, lua_eq, luaLocals_eq]
  cases a.firstLuaFault? with
  | some e => rfl
  | none =>
    cases a.variableNames.findSome? (bindingFault? vars) with
    | some e => rfl
    | none => simp [luaChunkParts, luaText_cons, luaText_append, luaText_nil, LuaPart.text,
        String.append_assoc]

/-! ### Chunks -/

/-- The tree reads a name, and the table binds it to this number. -/
def Reads (a : Expr (Complex R)) (vars : Vars (Complex R)) (name : String) (v : Complex R) : Prop :=
  (∃ p, named name p ∈ a.subtrees) ∧ vars.get? name = some v

omit [RealArith R] in
theorem reads_iff {vars : Vars (Complex R)} {name : String} {v : Complex R} :
    a.Reads vars name v ↔ name ∈ a.variableNames ∧ vars.get? name = some v := by
  unfold Reads
  rw [mem_variableNames_iff]

theorem bindingFault?_eq_none_iff {vars : Vars (Complex R)} {name : String} :
    bindingFault? vars name = none ↔ ∀ v, vars.get? name = some v → (v.im == 0) = true := by
  unfold bindingFault?
  cases vars.get? name with
  | none => simp
  | some v => simp [bne]

theorem findSome?_bindingFault?_eq_none_iff {vars : Vars (Complex R)} :
    a.variableNames.findSome? (bindingFault? vars) = none ↔
      ∀ name v, a.Reads vars name v → (v.im == 0) = true := by
  rw [List.findSome?_eq_none_iff]
  simp only [bindingFault?_eq_none_iff, reads_iff, and_imp]
  exact ⟨fun h name v hname => h name hname v, fun h name hname v => h name v hname⟩

omit [RealArith R] in
/-- The numbers in the lines are real parts of bound numbers, and all of these are in them. -/
theorem numeral_mem_localParts_iff {vars : Vars (Complex R)} {r : R} :
    .numeral r ∈ a.variableNames.flatMap (localParts vars) ↔
      ∃ name v, a.Reads vars name v ∧ v.re = r := by
  have hpart (name : String) : .numeral r ∈ localParts vars name ↔
      ∃ v, vars.get? name = some v ∧ v.re = r := by
    unfold localParts
    cases vars.get? name with
    | none => simp
    | some v => simp [eq_comm]
  simp only [List.mem_flatMap, hpart, reads_iff]
  exact ⟨fun ⟨name, hname, v, hv, hr⟩ => ⟨name, v, ⟨hname, hv⟩, hr⟩,
    fun ⟨name, v, ⟨hname, hv⟩, hr⟩ => ⟨name, hname, v, hv, hr⟩⟩

/-- The numbers in a chunk are finite exactly if the numbers are that the table gives. -/
theorem forall_numeral_mem_luaChunkParts_iff {vars : Vars (Complex R)}
    (h : a.firstLuaFault? = none) :
    (∀ r, .numeral r ∈ a.luaChunkParts vars → isFinite r = true) ↔
      ∀ name v, a.Reads vars name v → isFinite v.re = true := by
  have hparts (r : R) : .numeral r ∈ a.luaChunkParts vars ↔
      .numeral r ∈ a.variableNames.flatMap (localParts vars) ∨ .numeral r ∈ a.luaParts := by
    simp [luaChunkParts]
  simp only [hparts, numeral_mem_localParts_iff]
  constructor
  · intro hfinite name v hv
    exact hfinite v.re (.inl ⟨name, v, hv, rfl⟩)
  · rintro hfinite r (⟨name, v, hv, rfl⟩ | hr)
    · exact hfinite name v hv
    · obtain ⟨v, hv, rfl⟩ := exists_of_numeral_mem_luaParts hr
      exact (Complex.isFinite_iff.1 ((firstLuaFault?_eq_none_iff.1 h).1 v hv).1).1

/-- **When there is a Lua chunk.** A tree has one over a table exactly if its numbers are finite and
real, it calls none of the three functions, and every number that the table gives it is real. The
numbers written in a chunk are then finite exactly if those of the table are: they are not checked
for it. The error of an expression is that of the first node with one in the order of evaluation; the
error of a chunk is that of its expression, or else of the first name with one. -/
theorem luaChunk_eq_ok_iff (a : Expr (Complex R)) (vars : Vars (Complex R)) :
    ((∃ chunk, a.luaChunk vars = .ok chunk) ↔
      ((∀ v, number v ∈ a.subtrees → v.isFinite = true ∧ (v.im == 0) = true) ∧
        ∀ f b p, call f b p ∈ a.subtrees → f ∉ withoutLua) ∧
      ∀ name v, a.Reads vars name v → (v.im == 0) = true) ∧
    (∀ chunk, a.luaChunk vars = .ok chunk → chunk = luaText (a.luaChunkParts vars) ∧
      ((∀ r, .numeral r ∈ a.luaChunkParts vars → isFinite r = true) ↔
        ∀ name v, a.Reads vars name v → isFinite v.re = true)) ∧
    (∀ e, a.lua = .error e ↔ ∃ before s after, a.visits = before ++ s :: after ∧
      s.luaFault? = some e ∧ ∀ t ∈ before, t.luaFault? = none) ∧
    ∀ e, a.luaChunk vars = .error e ↔ a.lua = .error e ∨ (∃ body, a.lua = .ok body) ∧
      ∃ before name after, a.variableNames = before ++ name :: after ∧
        bindingFault? vars name = some e ∧ ∀ n ∈ before, bindingFault? vars n = none := by
  refine ⟨?_, fun chunk hchunk => ?_, fun e => lua_eq_error_iff, fun e => ?_⟩
  · rw [luaChunk_eq, ← firstLuaFault?_eq_none_iff, ← findSome?_bindingFault?_eq_none_iff,
      ← Option.or_eq_none_iff]
    cases a.firstLuaFault?.or (a.variableNames.findSome? (bindingFault? vars)) with
    | some e => simp
    | none => simp
  · rw [luaChunk_eq] at hchunk
    split at hchunk
    · cases hchunk
    · next hnone =>
      cases hchunk
      exact ⟨rfl, forall_numeral_mem_luaChunkParts_iff (Option.or_eq_none_iff.1 hnone).1⟩
  · rw [← List.findSome?_eq_some_iff, luaChunk_eq, lua_eq]
    cases a.firstLuaFault? with
    | some e' => simp
    | none =>
      cases a.variableNames.findSome? (bindingFault? vars) with
      | some e' => simp
      | none => simp

/-- The table binds `a` to infinity, and the chunk of `a` has a line for it: in Lua `inf` is another
name, which has no value. -/
theorem luaChunk_infinite :
    ∃ (vars : Vars (Complex Double)) (v : Complex Double),
      (named "a" none).Reads vars "a" v ∧ v.isFinite = false ∧
      (named "a" none).luaChunk vars =
        .ok "local a = inf\nreturn function(x) return a end\n" := by
  have htext : RealArith.text (Complex.ofReal (1 / 0 : Double)).re = "inf" := by decide +kernel
  have hreal : ((Complex.ofReal (1 / 0 : Double)).im != 0) = false := by decide +kernel
  have hget : (Vars.ofList [("a", Complex.ofReal (1 / 0 : Double))]).get? "a" =
      some (.ofReal (1 / 0)) := by
    rfl
  refine ⟨_, _, ⟨⟨none, List.mem_cons_self⟩, hget⟩, by decide +kernel, ?_⟩
  rw [luaChunk, lua, variableNames]
  simp only [collectNames, addName, List.not_mem_nil, if_false, List.nil_append, luaLocals, hget,
    hreal, htext, Bool.false_eq_true]
  rfl

end Expr

end Formulary
