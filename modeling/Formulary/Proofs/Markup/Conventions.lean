import Formulary.Expr.Latex
import Formulary.Proofs.Printing.Lexing
import Formulary.Proofs.Reading.Conventions
import Formulary.Proofs.Reading.Machine

/-!
# How typeset markup is read

Spaces are ignored. Digits next to each other are one number, a letter is a variable, and what is in
braces or in parentheses that grow is one operand. Two operands next to each other are a product,
unless the second one begins with a minus sign: behind an operand that sign subtracts, and elsewhere
it negates. Operators bind as the operator table says.

* `MarkupToken`, `markupMachine`: commands and characters, and the machine that finds them.
* `Delimiters`: what encloses an operand: parentheses or the name and the parentheses of a function.
* `markupConventions value`: the conventions, where `value` gives the numbers their values.
* `markupOperand_delimited`, `markupOperand_fraction`, `markupFits_binary`, `markupFits_product` and
  the like: what a piece of markup is read as, given what its parts are read as.
-/

namespace Formulary

open Text TokenMachine

universe u

/-! ### Tokens -/

/-- A token of markup. -/
inductive MarkupToken where
  /-- A word behind a backslash. -/
  | command (name : List Char)
  | char (c : Char)
  deriving DecidableEq, Repr

/-- What was read of a token that may go on. -/
inductive MarkupPending where
  | nothing
  | command (name : List Char)
  deriving DecidableEq, Repr

/-- The machine that cuts markup into tokens. Spaces leave none. -/
def markupMachine : TokenMachine MarkupPending MarkupToken where
  idle := .nothing
  flush
    | .nothing => []
    | .command cs => [.command cs]
  endsBefore
    | .nothing, _ => true
    | .command _, c => !isLatinLetter c
  start c :=
    if c = '\\' then ([], .command [])
    else if c = ' ' then ([], .nothing)
    else ([.char c], .nothing)
  extend
    | .nothing, _ => .nothing
    | .command cs, c => .command (cs ++ [c])
  flush_idle := rfl
  endsBefore_idle _ := rfl

/-- The tokens of markup. -/
def markupTokens (s : String) : List MarkupToken :=
  markupMachine.tokens s

/-- The character of a number. -/
def isDigitOrPoint (c : Char) : Bool :=
  isDigit c || c == '.'

/-- The characters of the number that begins here, and the tokens behind it. -/
def numeralRun : List MarkupToken → List Char × List MarkupToken
  | .char c :: ts =>
    if isDigitOrPoint c then (c :: (numeralRun ts).1, (numeralRun ts).2) else ([], .char c :: ts)
  | ts => ([], ts)

/-- The tokens end in the character of a number. -/
def EndsInNumeral (ts : List MarkupToken) : Prop :=
  ∃ c, ts.getLast? = some (.char c) ∧ isDigitOrPoint c = true

/-- The tokens begin with the character of a number. -/
def BeginsWithNumeral (ts : List MarkupToken) : Prop :=
  ∃ c, ts.head? = some (.char c) ∧ isDigitOrPoint c = true

/-! ### Delimiters -/

/-- Tokens around an operand, and the function that they apply to it, if they apply one. -/
structure Delimiters where
  function? : Option Builtin
  opening : List MarkupToken
  closing : List MarkupToken
  deriving DecidableEq, Repr

namespace Delimiters

/-- What parentheses that grow are opened with. -/
def leftTokens : List MarkupToken :=
  markupTokens "\\left("

/-- What they are closed with. -/
def rightTokens : List MarkupToken :=
  markupTokens "\\right)"

/-- Parentheses that grow. -/
def parens : Delimiters :=
  ⟨none, leftTokens, rightTokens⟩

/-- The command of a function, with braces for roots and parentheses for the others. -/
def ofFunction (f : Builtin) : Delimiters :=
  if f = .sqrt ∨ f = .cbrt then ⟨some f, markupTokens f.markup ++ [.char '\x7b'], [.char '\x7d']⟩
  else ⟨some f, markupTokens f.markup ++ leftTokens, rightTokens⟩

/-- The functions with commands of their own. The exponential is written as a power, and the natural
logarithm has one name. -/
def functions : List Builtin :=
  Builtin.all.filter fun f => f ≠ .exp ∧ f ≠ .ln

/-- All brackets that begin with a command. -/
def all : List Delimiters :=
  parens :: functions.map ofFunction

/-- The tree of the operand in the bracket. -/
def tree {N : Type u} (b : Delimiters) (a : Expr N) : Expr N :=
  match b.function? with
  | some f => .call f a none
  | none => a

/-- The bracket that opens here. -/
def at? (ts : List MarkupToken) : Option Delimiters :=
  all.find? fun b => b.opening.isPrefixOf ts

/-- No bracket opens like the beginning of another one. -/
theorem eq_of_isPrefix {b b' : Delimiters} (hb : b ∈ all) (hb' : b' ∈ all)
    (h : b.opening <+: b'.opening) : b = b' := by
  have hall : ∀ b ∈ all, ∀ b' ∈ all, b.opening <+: b'.opening → b = b' := by decide +kernel
  exact hall b hb b' hb' h

theorem at?_append {b : Delimiters} (hb : b ∈ all) (ts : List MarkupToken) :
    at? (b.opening ++ ts) = some b := by
  have hopens : b.opening.isPrefixOf (b.opening ++ ts) = true :=
    List.isPrefixOf_iff_prefix.2 (List.prefix_append _ _)
  cases hfind : at? (b.opening ++ ts) with
  | none => exact absurd hopens (List.find?_eq_none.1 hfind b hb)
  | some b' =>
    have hb' := List.mem_of_find?_eq_some hfind
    have hopens' : b'.opening.isPrefixOf (b.opening ++ ts) = true :=
      List.find?_some (p := fun d : Delimiters => d.opening.isPrefixOf (b.opening ++ ts)) hfind
    have hprefix := List.isPrefixOf_iff_prefix.1 hopens'
    rcases List.prefix_or_prefix_of_prefix hprefix (List.prefix_append _ _) with h | h
    · rw [eq_of_isPrefix hb' hb h]
    · rw [eq_of_isPrefix hb hb' h]

end Delimiters

/-! ### The conventions -/

/-- The token begins an operand that multiplies the one before it. -/
def MarkupToken.beginsFactor : MarkupToken → Bool
  | .char c => c == '\x7b' || isDigitOrPoint c || isNameStart c
  | .command cs => cs != "right".toList && cs != "cdot".toList

/-- The operator that the token stands for. -/
def MarkupToken.operator? : MarkupToken → Option BinaryOp
  | .char c => (Operator.ofChar? c).bind Operator.binary?
  | .command cs => if cs = "cdot".toList then some .mul else none

/-- The limit for the operators in the operand behind the operator. -/
def BinaryOp.rightLimit (op : BinaryOp) : Nat :=
  if op.isRightAssoc then op.precedence - 1 else op.precedence

variable {N : Type u}

/-- The operator as it joins trees. -/
def BinaryOp.markupJoiner (op : BinaryOp) : Joiner (Expr N) :=
  ⟨op.precedence, op.rightLimit, fun a b => .binary op a b none⟩

/-- The form, behind certain tokens. -/
def expecting (ps : List MarkupToken) (f : Form MarkupToken (Expr N)) (ts : List MarkupToken) :
    Option (Form MarkupToken (Expr N) × List MarkupToken) :=
  if ps <+: ts then some (f, ts.drop ps.length) else none

/-- An expression up to its closing tokens. -/
def enclosing (qs : List MarkupToken) (tree : Expr N → Expr N) : Form MarkupToken (Expr N) :=
  .part 0 fun a => expecting qs (.whole (tree a))

/-- The numerator and the denominator of a fraction, each up to its closing brace. -/
def fraction : Form MarkupToken (Expr N) :=
  .part 0 fun a => expecting [.char '\x7d', .char '\x7b'] <|
    enclosing [.char '\x7d'] fun b => .binary .div a b none

/-- An expression whose operators bind tighter than a minus sign before it. -/
def negation : Form MarkupToken (Expr N) :=
  .part Operator.neg.precedence fun a ts => some (.whole (.neg a), ts)

/-- A variable of one letter, or the argument. -/
def letter (c : Char) : Expr N :=
  if String.singleton c = argumentName then .argument else .named (String.singleton c) none

/-- What begins an operand. -/
def markupOpening? (value : List Char → Option N) :
    List MarkupToken → Option (Form MarkupToken (Expr N) × List MarkupToken)
  | [] => none
  | .char c :: ts =>
    if c = '-' then some (negation, ts)
    else if c = '\x7b' then some (enclosing [.char '\x7d'] id, ts)
    else if isDigitOrPoint c then
      (value (numeralRun (.char c :: ts)).1).map fun v =>
        (.whole (.number v), (numeralRun (.char c :: ts)).2)
    else if isNameStart c then some (.whole (letter c), ts)
    else none
  | .command cs :: ts =>
    if cs = "frac".toList then expecting [.char '\x7b'] fraction ts
    else if String.ofList cs ∈ greekNames then
      some (.whole (.named (String.ofList cs) none), ts)
    else
      (Delimiters.at? (.command cs :: ts)).map fun b =>
        (enclosing b.closing b.tree, (MarkupToken.command cs :: ts).drop b.opening.length)

/-- The conventions of markup, with the values of numbers. -/
def markupConventions (value : List Char → Option N) : Conventions MarkupToken (Expr N) where
  opening? := markupOpening? value
  joiner?
    | [] => none
    | t :: ts =>
      if t.beginsFactor then some (BinaryOp.mul.markupJoiner, t :: ts)
      else t.operator?.map fun op => (op.markupJoiner, ts)

/-- The tokens fit wherever they do not end in a number that goes on behind them. -/
def MarkupFits (value : List Char → Option N) (strength grip : Nat) (ts : List MarkupToken)
    (a : Expr N) : Prop :=
  Fits (markupConventions value) strength grip
    (fun us => ¬ (EndsInNumeral ts ∧ BeginsWithNumeral us)) ts a

variable {value : List Char → Option N} {strength grip strength' grip' : Nat}
  {ts us : List MarkupToken} {a b : Expr N}

theorem expecting_append (ps : List MarkupToken) (f : Form MarkupToken (Expr N)) :
    expecting ps f (ps ++ ts) = some (f, ts) := by
  unfold expecting
  rw [if_pos (List.prefix_append ps ts), List.drop_left]

/-! ### Ends of numbers -/

theorem EndsInNumeral.append (h : EndsInNumeral us) : EndsInNumeral (ts ++ us) := by
  obtain ⟨c, hc, hnumeral⟩ := h
  exact ⟨c, by rw [List.getLast?_append, hc]; rfl, hnumeral⟩

theorem not_beginsWithNumeral_cons {t : MarkupToken}
    (ht : ∀ c, t = .char c → isDigitOrPoint c = false) : ¬ BeginsWithNumeral (t :: ts) := by
  rintro ⟨c, hc, hnumeral⟩
  cases hc
  rw [ht c rfl] at hnumeral
  cases hnumeral

/-- Tokens that bind more tightly fit in all the places of those that bind less tightly. -/
theorem MarkupFits.mono (h : MarkupFits value strength' grip' ts a) (hs : strength ≤ strength')
    (hg : grip ≤ grip') : MarkupFits value strength grip ts a :=
  Fits.mono h hs hg fun _ hok => hok

/-! ### Operands -/

/-- One operand. -/
def MarkupOperand (value : List Char → Option N) (ts : List MarkupToken) (a : Expr N) : Prop :=
  IsOperand (markupConventions value) (fun us => ¬ (EndsInNumeral ts ∧ BeginsWithNumeral us)) ts a

theorem MarkupOperand.fits (h : MarkupOperand value ts a) (strength grip : Nat) :
    MarkupFits value strength grip ts a :=
  IsOperand.fits h strength grip

/-- The tokens go on with no operand and join none. -/
def closes (qs : List MarkupToken) : Bool :=
  qs.head?.any fun t => !t.beginsFactor && t.operator?.isNone

theorem not_beginsWithNumeral_of_beginsFactor {t : MarkupToken} (h : t.beginsFactor = false) :
    ¬ BeginsWithNumeral (t :: ts) := by
  refine not_beginsWithNumeral_cons fun c hc => ?_
  subst hc
  simp only [MarkupToken.beginsFactor, Bool.or_eq_false_iff] at h
  exact h.1.2

theorem exists_of_closes {qs : List MarkupToken} (h : closes qs = true) :
    ∃ t ts, qs = t :: ts ∧ t.beginsFactor = false ∧ t.operator? = none := by
  obtain ⟨t, ht, hclose⟩ := (Option.any_eq_true _ _).1 h
  obtain ⟨ts, rfl⟩ := List.head?_eq_some_iff.1 ht
  obtain ⟨hfactor, hoperator⟩ := Bool.and_eq_true_iff.1 hclose
  rw [Bool.not_eq_true'] at hfactor
  exact ⟨t, ts, rfl, hfactor, Option.isNone_iff_eq_none.1 hoperator⟩

theorem not_beginsWithNumeral_of_closes {qs : List MarkupToken} (h : closes qs = true)
    (vs : List MarkupToken) : ¬ BeginsWithNumeral (qs ++ vs) := by
  obtain ⟨t, rest, rfl, hfactor, -⟩ := exists_of_closes h
  exact not_beginsWithNumeral_of_beginsFactor hfactor

theorem joiner?_of_closes {qs : List MarkupToken} (h : closes qs = true) (vs : List MarkupToken) :
    (markupConventions value).joiner? (qs ++ vs) = none := by
  obtain ⟨t, rest, rfl, hfactor, hoperator⟩ := exists_of_closes h
  show (if t.beginsFactor = true then _ else _) = none
  rw [hfactor, hoperator]
  rfl

/-- An expression up to its closing tokens. -/
theorem isRest_enclosing (tree : Expr N → Expr N) {qs : List MarkupToken}
    (h : MarkupFits value strength grip ts a) (hs : 0 < strength) (hclose : closes qs = true) :
    IsRest (markupConventions value) (fun _ => True) (enclosing qs tree) (ts ++ qs) (tree a) := by
  have hrest : IsRest (markupConventions value) (fun _ => True) (enclosing qs tree)
      (ts ++ (qs ++ [])) (tree a) :=
    IsRest.part qs h hs (fun _ => expecting_append _ _) isRest_whole
      (fun vs hok => not_beginsWithNumeral_of_closes hclose vs hok.2) (joiner?_of_closes hclose)
  rwa [List.append_nil] at hrest

/-- The rest of an operand behind the tokens that open it. -/
theorem markupOperand_of_isRest {f : Form MarkupToken (Expr N)} (ps : List MarkupToken)
    (h : IsRest (markupConventions value) (fun _ => True) f ts a)
    (hopen : ∀ vs, markupOpening? value (ps ++ vs) = some (f, vs)) :
    MarkupOperand value (ps ++ ts) a :=
  (h.isOperand ps hopen).mono fun _ _ => trivial

theorem markupOperand_braces (h : MarkupFits value strength grip ts a) (hs : 0 < strength) :
    MarkupOperand value ([.char '\x7b'] ++ (ts ++ [.char '\x7d'])) a :=
  markupOperand_of_isRest [.char '\x7b'] (isRest_enclosing id h hs (by decide)) fun _ => rfl

/-- An expression in parentheses, or in those of a function. -/
theorem markupOperand_delimited {d : Delimiters} (hd : d ∈ Delimiters.all)
    (h : MarkupFits value strength grip ts a) (hs : 0 < strength) :
    MarkupOperand value (d.opening ++ (ts ++ d.closing)) (d.tree a) := by
  have hall : ∀ d ∈ Delimiters.all, closes d.closing = true ∧
      (d.opening.head?.any fun
        | .command cs => cs != "frac".toList && decide (String.ofList cs ∉ greekNames)
        | .char _ => false) = true := by
    decide +kernel
  obtain ⟨hclose, hhead⟩ := hall d hd
  obtain ⟨t, ht, hcommand⟩ := (Option.any_eq_true _ _).1 hhead
  obtain ⟨ps, hps⟩ := List.head?_eq_some_iff.1 ht
  refine markupOperand_of_isRest d.opening (isRest_enclosing d.tree h hs hclose) fun vs => ?_
  have hat := Delimiters.at?_append hd vs
  rw [hps] at hat ⊢
  cases t with
  | char c => cases hcommand
  | command cs =>
    obtain ⟨hfrac, hgreek⟩ := Bool.and_eq_true_iff.1 hcommand
    show markupOpening? value (.command cs :: (ps ++ vs)) = _
    rw [markupOpening?, if_neg (bne_iff_ne.1 hfrac), if_neg (of_decide_eq_true hgreek)]
    rw [List.cons_append] at hat
    rw [hat, Option.map_some, hps, ← List.cons_append, List.drop_left]

/-- A fraction. -/
theorem markupOperand_fraction (ha : MarkupFits value strength grip ts a) (hs : 0 < strength)
    (hb : MarkupFits value strength' grip' us b) (hs' : 0 < strength') :
    MarkupOperand value ([.command "frac".toList, .char '\x7b'] ++
      (ts ++ ([.char '\x7d', .char '\x7b'] ++ (us ++ [.char '\x7d']))))
      (.binary .div a b none) := by
  have hclose : closes [.char '\x7d', .char '\x7b'] = true := by decide
  have hsecond := isRest_enclosing (fun b => .binary .div a b none) hb hs'
    (show closes [.char '\x7d'] = true by decide)
  have hfirst : IsRest (markupConventions value) (fun _ => True) fraction _ _ :=
    IsRest.part [.char '\x7d', .char '\x7b'] ha hs (fun _ => expecting_append _ _) hsecond
      (fun vs hok => not_beginsWithNumeral_of_closes hclose vs hok.2) (joiner?_of_closes hclose)
  refine markupOperand_of_isRest [.command "frac".toList, .char '\x7b'] hfirst fun vs => ?_
  show markupOpening? value (.command "frac".toList :: ([.char '\x7b'] ++ vs)) = _
  rw [markupOpening?, if_pos rfl]
  exact expecting_append [.char '\x7b'] fraction

/-- A minus sign before an operand. -/
theorem markupFits_negation (h : MarkupFits value strength' grip ts a)
    (hs : Operator.neg.precedence < strength') (strength : Nat) :
    MarkupFits value strength (min Operator.neg.precedence grip) ([.char '-'] ++ ts) (.neg a) := by
  have hfits : Fits (markupConventions value) strength (min Operator.neg.precedence grip) _
      ([.char '-'] ++ ts) (.neg a) :=
    Fits.signed [.char '-'] h hs (fun _ => rfl) fun _ => rfl
  exact hfits.mono (Nat.le_refl _) (Nat.le_refl _) fun _ hok hends => hok ⟨hends.1.append, hends.2⟩

/-- Two operands with an operator between them. -/
theorem markupFits_binary {t : MarkupToken} {op : BinaryOp} (ht : t.beginsFactor = false)
    (hop : t.operator? = some op) (ha : MarkupFits value strength grip ts a)
    (hb : MarkupFits value strength' grip' us b) (hleft : op.precedence ≤ grip)
    (hright : op.rightLimit < strength') :
    MarkupFits value (min op.precedence strength) (min op.rightLimit grip') (ts ++ ([t] ++ us))
      (.binary op a b none) := by
  have hjoiner (vs : List MarkupToken) :
      (markupConventions value).joiner? ([t] ++ (us ++ vs)) = some (op.markupJoiner, us ++ vs) := by
    show (if t.beginsFactor = true then _ else _) = _
    rw [ht, hop]
    rfl
  have hfits := Fits.join [t] ha hb (fun vs _ => hjoiner vs)
    (fun _ _ hok => not_beginsWithNumeral_of_beginsFactor ht hok.2) hleft hright
  exact hfits.mono (Nat.le_refl _) (Nat.le_refl _)
    fun _ hok hends => hok ⟨hends.1.append.append, hends.2⟩

/-- Two operands next to each other. -/
theorem markupFits_product {t : MarkupToken} (ht : t ∈ us.head?) (hfactor : t.beginsFactor = true)
    (hapart : ¬ (EndsInNumeral ts ∧ BeginsWithNumeral us))
    (ha : MarkupFits value strength grip ts a) (hb : MarkupFits value strength' grip' us b)
    (hleft : BinaryOp.mul.precedence ≤ grip) (hright : BinaryOp.mul.rightLimit < strength') :
    MarkupFits value (min BinaryOp.mul.precedence strength) (min BinaryOp.mul.rightLimit grip')
      (ts ++ us) (.binary .mul a b none) := by
  obtain ⟨us, rfl⟩ := List.head?_eq_some_iff.1 ht
  have hjoiner (vs : List MarkupToken) : (markupConventions value).joiner? ([] ++ (t :: us ++ vs)) =
      some (BinaryOp.mul.markupJoiner, t :: us ++ vs) := by
    show (if t.beginsFactor = true then _ else _) = _
    rw [if_pos hfactor]
    rfl
  have hfits := Fits.join [] ha hb (fun vs _ => hjoiner vs) (fun _ _ hok => hapart hok) hleft hright
  exact hfits.mono (Nat.le_refl _) (Nat.le_refl _) fun _ hok hends => hok ⟨hends.1.append, hends.2⟩

/-! ### Leaves -/

theorem numeralRun_append {cs : List Char} (h : ∀ c ∈ cs, isDigitOrPoint c = true)
    (hus : ¬ BeginsWithNumeral us) : numeralRun (cs.map .char ++ us) = (cs, us) := by
  induction cs with
  | nil =>
    cases us with
    | nil => rfl
    | cons t us =>
      cases t with
      | command cs => rfl
      | char c =>
        have hc : isDigitOrPoint c = false := by
          rw [Bool.eq_false_iff]
          exact fun hc => hus ⟨c, rfl, hc⟩
        rw [List.map_nil, List.nil_append, numeralRun, if_neg (Bool.eq_false_iff.1 hc)]
  | cons c cs ih =>
    rw [List.map_cons, List.cons_append, numeralRun, if_pos (h c List.mem_cons_self),
      ih fun d hd => h d (List.mem_cons_of_mem _ hd)]

/-- A number. -/
theorem markupOperand_number {cs : List Char} {v : N} (hne : cs ≠ [])
    (h : ∀ c ∈ cs, isDigitOrPoint c = true) (hv : value cs = some v) :
    MarkupOperand value (cs.map .char) (.number v) := by
  intro us hus
  obtain ⟨c, ds, rfl⟩ := List.exists_cons_of_ne_nil hne
  have hc : isDigitOrPoint c = true := h c List.mem_cons_self
  have hends : EndsInNumeral ((c :: ds).map .char) := by
    refine ⟨(c :: ds).getLast hne, ?_, h _ (List.getLast_mem hne)⟩
    rw [List.getLast?_map, List.getLast?_eq_some_getLast hne]
    rfl
  have hrun := numeralRun_append h fun hbegins => hus ⟨hends, hbegins⟩
  rw [List.map_cons, List.cons_append] at hrun
  refine .operand (f := .whole (.number v)) ?_ .whole
  show markupOpening? value (.char c :: (ds.map .char ++ us)) = _
  have hminus : c ≠ '-' := by
    rintro rfl
    exact absurd hc (by decide)
  have hbrace : c ≠ '\x7b' := by
    rintro rfl
    exact absurd hc (by decide)
  rw [markupOpening?, if_neg hminus, if_neg hbrace, if_pos hc, hrun, hv]
  rfl

/-- A letter. -/
theorem markupOperand_letter {c : Char} (h : isNameStart c = true) :
    MarkupOperand value [.char c] (letter c) := by
  intro us _
  refine .operand (f := .whole (letter c)) ?_ .whole
  show markupOpening? value (.char c :: us) = _
  have hne {d : Char} (hd : isNameStart d = false) : c ≠ d := by
    rintro rfl
    rw [hd] at h
    cases h
  have hnumeral : isDigitOrPoint c = false := by
    obtain ⟨hdigit, hdot⟩ := not_isDigit_of_isNameStart h
    simp [isDigitOrPoint, hdigit, hdot]
  rw [markupOpening?, if_neg (hne (by decide)), if_neg (hne (by decide)),
    if_neg (Bool.eq_false_iff.1 hnumeral), if_pos h]

/-- A Greek letter with a command. -/
theorem markupOperand_greek {n : String} (h : n ∈ greekNames) :
    MarkupOperand value [.command n.toList] (.named n none) := by
  intro us _
  refine .operand (f := .whole (.named n none)) ?_ .whole
  show markupOpening? value (.command n.toList :: us) = _
  have hfrac : n.toList ≠ "frac".toList := by
    intro heq
    rw [String.toList_inj.1 heq] at h
    exact absurd h (by decide)
  rw [markupOpening?, if_neg hfrac, String.ofList_toList, if_pos h]

end Formulary
