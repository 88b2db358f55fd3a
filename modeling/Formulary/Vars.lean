import Formulary.Expr.Basic
import Formulary.Number.ComplexArith
import Formulary.Text.Lowercase

/-!
# Tables of variables

A table gives values to names. The case of letters does not count, and the argument of a formula is
never in a table.

* `Vars K`: the bindings in ascending order of the names, which are in lower case.
* `Vars.set`, `Vars.setAll`, `Vars.remove`, `Vars.clear`: changes; binding the argument changes
  nothing.
* `Vars.get?`, `Vars.contains`: look-up.
* `Vars.constants`: the table of the constants `e`, `pi` and `phi`.
* `isReservedName`, `reservedNameWarnings`: names that no table binds, and what is said of them.

A binding that is made is found (`find?_set`), one that is taken away is not
(`find?_remove`), and no other look-up changes.
-/

namespace Formulary

open Text

universe u

/-- Values by name. -/
structure Vars (K : Type u) where
  /-- The bindings in ascending order of the names. -/
  entries : List (String × K)
  deriving DecidableEq, Repr, Inhabited

/-- The name means the argument of the formula. -/
def isReservedName (name : String) : Bool :=
  lowerString name == argumentName

/-- The warning that a binding is ignored. -/
def reservedNameWarning (name : String) : String :=
  "ignoring binding for reserved argument name '" ++ name ++ "'"

variable {K : Type u}

/-- The warnings that making bindings in turn gives. -/
def reservedNameWarnings (items : List (String × K)) : List String :=
  (items.filter fun item => isReservedName item.1).map fun item => reservedNameWarning item.1

namespace Vars

/-- The table without bindings. -/
def empty : Vars K :=
  ⟨[]⟩

/-- The value bound to exactly this name. -/
def find? (vars : Vars K) (name : String) : Option K :=
  vars.entries.lookup name

/-- Puts a binding at its place among ascending ones, over one of the same name. -/
def insertEntry (name : String) (value : K) : List (String × K) → List (String × K)
  | [] => [(name, value)]
  | (n, v) :: es =>
    if name = n then (name, value) :: es
    else if name < n then (name, value) :: (n, v) :: es
    else (n, v) :: insertEntry name value es

/-- Looking up a name goes on where the first binding is of another one. -/
theorem lookup_cons_eq_ite (n m : String) (v : K) (es : List (String × K)) :
    List.lookup n ((m, v) :: es) = if n = m then some v else List.lookup n es := by
  by_cases h : n = m
  · simp [h]
  · have hb : (n == m) = false := by simpa using h
    simp [List.lookup_cons, hb, h]

theorem lookup_insertEntry (name : String) (value : K) (es : List (String × K)) (n : String) :
    (insertEntry name value es).lookup n = if n = name then some value else es.lookup n := by
  induction es with
  | nil => rw [insertEntry, lookup_cons_eq_ite]
  | cons e es ih =>
    obtain ⟨m, v⟩ := e
    rw [insertEntry]
    split
    · next h => grind [lookup_cons_eq_ite]
    · split
      · exact lookup_cons_eq_ite n name value _
      · grind [lookup_cons_eq_ite]

/-- Binds a name; the argument of formulas is left out. -/
def set (vars : Vars K) (name : String) (value : K) : Vars K :=
  if isReservedName name then vars else ⟨insertEntry (lowerString name) value vars.entries⟩

theorem find?_set (vars : Vars K) (name : String) (value : K) (n : String) :
    (vars.set name value).find? n =
      if isReservedName name then vars.find? n
      else if n = lowerString name then some value else vars.find? n := by
  unfold set
  split
  · rfl
  · exact lookup_insertEntry _ _ _ _

/-- Binds names in turn. -/
def setAll (vars : Vars K) (items : List (String × K)) : Vars K :=
  items.foldl (fun vars (name, value) => vars.set name value) vars

/-- The table of bindings made in turn. -/
def ofList (items : List (String × K)) : Vars K :=
  empty.setAll items

/-- The value of a name: as it is written, else in lower case. -/
def get? (vars : Vars K) (name : String) : Option K :=
  vars.find? name <|> vars.find? (lowerString name)

/-- The name is bound. -/
def contains (vars : Vars K) (name : String) : Bool :=
  (vars.find? (lowerString name)).isSome

/-- The table without a name, and the value it had. -/
def remove (vars : Vars K) (name : String) : Option K × Vars K :=
  (vars.find? (lowerString name),
    ⟨vars.entries.filter fun e => e.1 != lowerString name⟩)

theorem find?_remove (vars : Vars K) (name n : String) :
    (vars.remove name).2.find? n = if n = lowerString name then none else vars.find? n := by
  obtain ⟨es⟩ := vars
  simp only [remove, find?]
  induction es with
  | nil => simp
  | cons e es ih =>
    obtain ⟨m, v⟩ := e
    by_cases hm : m = lowerString name
    · simp only [List.filter_cons, hm, bne_self_eq_false, Bool.false_eq_true, if_false, ih]
      grind [lookup_cons_eq_ite]
    · have hk : (m != lowerString name) = true := by simpa using hm
      simp only [List.filter_cons, hk, if_true]
      grind [lookup_cons_eq_ite]

/-- The table with all its bindings taken away. -/
def clear (_ : Vars K) : Vars K :=
  empty

/-- The number of names. -/
def size (vars : Vars K) : Nat :=
  vars.entries.length

/-- No name is bound. -/
def isEmpty (vars : Vars K) : Bool :=
  vars.entries.isEmpty

end Vars

/-! ### Constants -/

variable {R : Type u} [RealArith R]

/-- The constants that a table has from the start, in ascending order. -/
def constants : List (String × Complex R) :=
  [(eulerName, .ofReal RealArith.euler), ("phi", .ofReal RealArith.golden),
   ("pi", .ofReal RealArith.pi)]

/-- The constant of exactly this name. -/
def constant? (name : String) : Option (Complex R) :=
  constants.lookup name

/-- The table of the constants. -/
def Vars.constants : Vars (Complex R) :=
  .ofList Formulary.constants

end Formulary
