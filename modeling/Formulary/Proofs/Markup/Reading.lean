import Formulary.Proofs.Arithmetic.TextLaws
import Formulary.Proofs.Expr.Reached
import Formulary.Proofs.Markup.Conventions
import Formulary.Proofs.Printing.RoundTrip
import Formulary.Proofs.Printing.Turns

/-!
# Typeset formulas are read as their trees

The markup of a formula is read as the formula where its products are kept apart: where no second
factor begins with a minus sign and no two digits of different numbers meet. No other form of the
markup needs such a condition. Products that are not kept apart are read as other formulas.

* `Expr.sketch`: the tree without places, with other numbers.
* `FactorsApart`, `Expr.ProductsApart`: the second factor is not subtracted and does not go on with
  the number before it.
* `MarkupReads a`: the tokens of the markup of `a` fit, as tightly as `a` binds.
* **`markupReads_of_leaves`**: those of every tree with its products apart do.
* **`reads_latex_iff`**: the markup of a parsed tree has one reading.
* `IsMisread s t`: the markup of the one formula is read as the other. `isMisread_products`: some is.
-/

namespace Formulary

open RealArith Text TokenMachine

universe u w

variable {R : Type u} [RealArith R] {N : Type w}

/-! ### Tokens of put-together markup -/

section

variable {s t p q : String}

/-- The text begins with a character that no command goes on with. -/
def endsCommand (t : String) : Bool :=
  t.toList.head?.any fun c => !isLatinLetter c

theorem parts_of_endsCommand (h : endsCommand t = true) : markupMachine.Parts s t := by
  obtain ⟨c, hc, hletter⟩ := (Option.any_eq_true _ _).1 h
  refine ⟨c, hc, ?_⟩
  cases markupMachine.pending s with
  | nothing => rfl
  | command cs => exact hletter

theorem markupTokens_append (h : endsCommand t = true) :
    markupTokens (s ++ t) = markupTokens s ++ markupTokens t :=
  tokens_append (parts_of_endsCommand h)

theorem markupTokens_append_of_pending (h : markupMachine.pending s = .nothing) :
    markupTokens (s ++ t) = markupTokens s ++ markupTokens t := by
  cases ht : t.toList with
  | nil =>
    rw [String.toList_eq_nil_iff.1 ht, String.append_empty]
    exact (List.append_nil _).symm
  | cons c cs => exact tokens_append ⟨c, by rw [ht]; rfl, by rw [h]; rfl⟩

/-- A mark between two texts. -/
theorem markupTokens_between (hp : endsCommand p = true)
    (hpending : markupMachine.pending p = .nothing) :
    markupTokens (s ++ p ++ t) = markupTokens s ++ (markupTokens p ++ markupTokens t) := by
  have hsp : markupMachine.pending (s ++ p) = .nothing :=
    (pending_append (parts_of_endsCommand hp)).trans hpending
  rw [markupTokens_append_of_pending hsp, markupTokens_append hp, List.append_assoc]

/-- A text between two marks. -/
theorem markupTokens_enclosed (hp : markupMachine.pending p = .nothing)
    (hq : endsCommand q = true) :
    markupTokens (p ++ s ++ q) = markupTokens p ++ (markupTokens s ++ markupTokens q) := by
  rw [markupTokens_append hq, markupTokens_append_of_pending hp, List.append_assoc]

theorem markupTokens_leftRight : markupTokens (leftRight s) =
    Delimiters.leftTokens ++ (markupTokens s ++ Delimiters.rightTokens) :=
  markupTokens_enclosed (by decide +kernel) (by decide +kernel)

theorem markupTokens_braced : markupTokens (braced s) =
    [.char '\x7b'] ++ (markupTokens s ++ [.char '\x7d']) :=
  markupTokens_enclosed (by decide +kernel) (by decide +kernel)

theorem endsCommand_leftRight : endsCommand (leftRight s) = true := by
  unfold endsCommand leftRight
  rw [String.toList_append, String.toList_append]
  rfl

theorem endsCommand_braced : endsCommand (braced s) = true := by
  unfold endsCommand braced
  rw [String.toList_append, String.toList_append]
  rfl

/-- A text without backslashes and spaces is cut into its characters. -/
theorem markupTokens_of_chars (h : ∀ c ∈ s.toList, c ≠ '\\' ∧ c ≠ ' ') :
    markupTokens s = s.toList.map .char := by
  have hrun : ∀ cs : List Char, (∀ c ∈ cs, c ≠ '\\' ∧ c ≠ ' ') →
      markupMachine.run .nothing cs = (cs.map .char, .nothing) := by
    intro cs hcs
    induction cs with
    | nil => rfl
    | cons c cs ih =>
      obtain ⟨hslash, hspace⟩ := hcs c List.mem_cons_self
      have hstep : markupMachine.step .nothing c = ([.char c], .nothing) := by
        show markupMachine.step markupMachine.idle c = _
        rw [step_idle]
        exact (if_neg hslash).trans (if_neg hspace)
      rw [run, hstep, ih fun d hd => hcs d (List.mem_cons_of_mem _ hd)]
      rfl
  have hs := hrun s.toList h
  unfold markupTokens tokens pending
  rw [show markupMachine.idle = .nothing from rfl, hs]
  exact List.append_nil _

end

/-! ### Trees -/

namespace Expr

/-- The tree without places, with other numbers. -/
def sketch {K : Type u} (num : K → N) : Expr K → Expr N
  | number v => number (num v)
  | argument => argument
  | named n _ => named n none
  | neg a => neg (a.sketch num)
  | binary op a b _ => binary op (a.sketch num) (b.sketch num) none
  | call f a _ => call f (a.sketch num) none

theorem sketch_id {K : Type u} (a : Expr K) : a.sketch id = a.unplaced := by
  induction a with
  | neg a ih => rw [sketch, ih, unplaced]
  | binary op a b p iha ihb => rw [sketch, iha, ihb, unplaced]
  | call f a p ih => rw [sketch, ih, unplaced]
  | _ => rfl

/-- Tighter than every sign and operator. -/
def tightest : Nat :=
  Operator.neg.precedence + 1

/-- How tightly the markup of the tree holds together, seen from the left. -/
def markupStrength : Expr (Complex R) → Nat
  | binary op a b p => if (binary op a b p).isFraction then tightest else op.precedence
  | _ => tightest

/-- How tight an operator behind the markup may be. -/
def markupGrip : Expr (Complex R) → Nat
  | binary op a b p =>
    if (binary op a b p).isFraction then Operator.neg.precedence else op.rightLimit
  | _ => Operator.neg.precedence

end Expr

/-- The second of two factors next to each other begins neither with a minus sign nor with a digit
that goes on with a number. -/
def FactorsApart (ls rs : List MarkupToken) : Prop :=
  rs.head? ≠ some (.char '-') ∧ ¬ (EndsInNumeral ls ∧ BeginsWithNumeral rs)

/-- In all products of the tree, but for those by a number, the factors are kept apart. -/
def Expr.ProductsApart (a : Expr (Complex R)) : Prop :=
  ∀ b c p, .binary .mul b c p ∈ a.subtrees → c.isNumber = false →
    FactorsApart (markupTokens (operandMarkup .mul true b b.typeset))
      (markupTokens (operandMarkup .mul false c c.typeset))

/-- The name is one letter. -/
def IsLetterName (name : String) : Prop :=
  ∃ c, name = String.singleton c ∧ isNameStart c = true

/-- What is asked of the leaves of a tree: real numbers written as plain numerals with the values
that reading gives them, names of one letter or Greek ones, and functions with commands of their own.
-/
def markupLeaves (value : List Char → Option N) (num : Complex R → N) :
    LeafProperty (Complex R) where
  number v := (v.im == 0) = true ∧ isPlainNumeral (text v.re).toList = true ∧
    value (text v.re).toList = some (num v)
  name n := n ≠ argumentName ∧ (n ∈ greekNames ∨ IsLetterName n)
  function f := f ∈ Delimiters.functions

/-- The tokens begin with a minus sign or with an operand. -/
def BeginsOperand (ts : List MarkupToken) : Prop :=
  ∃ t ∈ ts.head?, t = .char '-' ∨ t.beginsFactor = true

variable (value : List Char → Option N) (num : Complex R → N)

/-- The markup of the tree is read as the tree, as tightly as the tree binds. -/
structure MarkupReads (a : Expr (Complex R)) : Prop where
  begins : BeginsOperand (markupTokens a.latex)
  fits : MarkupFits value a.markupStrength a.markupGrip (markupTokens a.latex) (a.sketch num)
  /-- What needs no parentheses as part of a quotient on the line. -/
  size : a.markupStrength = Expr.tightest ∧ a.markupGrip = Operator.neg.precedence ∨
    1 < a.latex.utf8ByteSize

/-- An operand as its operator writes it. -/
structure OperandReads (op : BinaryOp) (isLeft : Bool) (a : Expr (Complex R)) (s : String) :
    Prop where
  begins : BeginsOperand (markupTokens s)
  fits : ∃ strength grip, MarkupFits value strength grip (markupTokens s) (a.sketch num) ∧
    if isLeft then op.precedence ≤ strength ∧ op.precedence ≤ grip
    else op.rightLimit < strength ∧ op.rightLimit ≤ grip

variable {value num} {op : BinaryOp} {a b : Expr (Complex R)} {f : Builtin} {p : Position}
  {s r : String}

theorem BeginsOperand.append {ts us : List MarkupToken} (h : BeginsOperand ts) :
    BeginsOperand (ts ++ us) := by
  obtain ⟨t, ht, h⟩ := h
  obtain ⟨ts, rfl⟩ := List.head?_eq_some_iff.1 ht
  exact ⟨t, rfl, h⟩

theorem ne_empty_of_beginsOperand (h : BeginsOperand (markupTokens s)) : s ≠ "" := by
  rintro rfl
  obtain ⟨t, ht, -⟩ := h
  cases ht

/-- What binds tightly enough to go without parentheses fits. -/
theorem fits_of_needsParens {isLeft : Bool} (h : ¬ a.isFraction = true →
    Expr.needsParens op isLeft a = false) :
    if isLeft then op.precedence ≤ a.markupStrength ∧ op.precedence ≤ a.markupGrip
    else op.rightLimit < a.markupStrength ∧ op.rightLimit ≤ a.markupGrip := by
  have hatom : if isLeft
      then op.precedence ≤ Expr.tightest ∧ op.precedence ≤ Operator.neg.precedence
      else op.rightLimit < Expr.tightest ∧ op.rightLimit ≤ Operator.neg.precedence := by
    cases op <;> cases isLeft <;> decide
  cases a with
  | binary op' c d q =>
    simp only [Expr.markupStrength, Expr.markupGrip]
    by_cases hfraction : (Expr.binary op' c d q).isFraction = true
    · rw [if_pos hfraction, if_pos hfraction]
      exact hatom
    · rw [if_neg hfraction, if_neg hfraction]
      have hparens : (if op'.precedence = op.precedence then isLeft == op.isRightAssoc
          else decide (op'.precedence < op.precedence)) = false := h hfraction
      revert hparens
      cases op <;> cases op' <;> cases isLeft <;> decide
  | _ => exact hatom

theorem markupStrength_pos (a : Expr (Complex R)) : 0 < a.markupStrength := by
  have hatom : 0 < Expr.tightest := by decide
  cases a with
  | binary op' c d q =>
    simp only [Expr.markupStrength]
    split
    · exact hatom
    · cases op' <;> decide
  | _ => exact hatom

theorem beginsOperand_delimited {d : Delimiters} (hd : d ∈ Delimiters.all)
    (ts : List MarkupToken) : BeginsOperand (d.opening ++ ts) := by
  have hall : ∀ d ∈ Delimiters.all, d.opening.head?.any (·.beginsFactor) = true := by
    decide +kernel
  obtain ⟨t, ht, hfactor⟩ := (Option.any_eq_true _ _).1 (hall d hd)
  exact BeginsOperand.append ⟨t, ht, .inr hfactor⟩

/-- An operand is read whether it is in parentheses or not. -/
theorem MarkupReads.operand (h : MarkupReads value num a) (op : BinaryOp) (isLeft : Bool) :
    OperandReads value num op isLeft a (operandMarkup op isLeft a a.typeset) := by
  unfold operandMarkup
  split
  · have hmem : Delimiters.parens ∈ Delimiters.all := List.mem_cons_self
    have hparens := markupOperand_delimited hmem h.fits (markupStrength_pos a)
    rw [show a.typeset.1 = a.latex from rfl]
    constructor
    · rw [markupTokens_leftRight]
      exact beginsOperand_delimited hmem _
    · rw [markupTokens_leftRight]
      refine ⟨_, _, hparens.fits Expr.tightest Operator.neg.precedence, ?_⟩
      cases op <;> cases isLeft <;> decide
  · next hparens =>
    refine ⟨h.begins, _, _, h.fits, fits_of_needsParens fun hfraction => ?_⟩
    simp only [Expr.isFraction] at hfraction
    simpa [hfraction] using hparens

omit [RealArith R] in
/-- Two operands with an operator between them. -/
theorem OperandReads.joined {t : MarkupToken} (hl : OperandReads value num op true a s)
    (hr : OperandReads value num op false b r) (ht : t.beginsFactor = false)
    (hop : t.operator? = some op) :
    MarkupFits value op.precedence op.rightLimit (markupTokens s ++ ([t] ++ markupTokens r))
      (.binary op (a.sketch num) (b.sketch num) none) := by
  obtain ⟨strength, grip, hfits, hstrength, hgrip⟩ := hl.fits
  obtain ⟨strength', grip', hfits', hstrength', hgrip'⟩ := hr.fits
  exact (markupFits_binary ht hop hfits hfits' hgrip hstrength').mono (by omega) (by omega)

omit [RealArith R] in
/-- Two factors next to each other. -/
theorem OperandReads.product (hl : OperandReads value num .mul true a s)
    (hr : OperandReads value num .mul false b r)
    (hapart : FactorsApart (markupTokens s) (markupTokens r)) :
    MarkupFits value BinaryOp.mul.precedence BinaryOp.mul.rightLimit
      (markupTokens s ++ markupTokens r) (.binary .mul (a.sketch num) (b.sketch num) none) := by
  obtain ⟨strength, grip, hfits, hstrength, hgrip⟩ := hl.fits
  obtain ⟨strength', grip', hfits', hstrength', hgrip'⟩ := hr.fits
  obtain ⟨t, ht, rfl | hfactor⟩ := hr.begins
  · exact absurd ht hapart.1
  · exact (markupFits_product ht hfactor hapart.2 hfits hfits' hgrip hstrength').mono (by omega)
      (by omega)

/-- A sign between two texts makes them longer than one byte. -/
theorem one_lt_utf8ByteSize (hs : s ≠ "") {q : String} (hq : q ≠ "") :
    1 < (s ++ q ++ r).utf8ByteSize := by
  have hs' : s.utf8ByteSize ≠ 0 := fun h => hs (String.utf8ByteSize_eq_zero_iff.1 h)
  have hq' : q.utf8ByteSize ≠ 0 := fun h => hq (String.utf8ByteSize_eq_zero_iff.1 h)
  rw [String.utf8ByteSize_append, String.utf8ByteSize_append]
  omega

/-- A node that is no fraction, whose markup is that of its operands with a mark between them. -/
theorem markupReads_binary {q : String} {us : List MarkupToken}
    (hfraction : (Expr.binary op a b p).isFraction = false)
    (hlatex : (Expr.binary op a b p).latex = s ++ q ++ r) (hq : q ≠ "")
    (hbegins : BeginsOperand (markupTokens s))
    (htokens : markupTokens (s ++ q ++ r) = markupTokens s ++ us)
    (hfits : MarkupFits value op.precedence op.rightLimit (markupTokens s ++ us)
      (.binary op (a.sketch num) (b.sketch num) none)) :
    MarkupReads value num (.binary op a b p) where
  begins := by
    rw [hlatex, htokens]
    exact hbegins.append
  fits := by
    rw [hlatex, htokens, Expr.markupStrength, Expr.markupGrip, hfraction]
    exact hfits
  size := by
    rw [hlatex]
    exact .inr (one_lt_utf8ByteSize (ne_empty_of_beginsOperand hbegins) hq)

/-- The mark is an operator. -/
theorem markupReads_joined {q : String} {t : MarkupToken}
    (hfraction : (Expr.binary op a b p).isFraction = false)
    (hlatex : (Expr.binary op a b p).latex = s ++ q ++ r)
    (hl : OperandReads value num op true a s) (hr : OperandReads value num op false b r)
    (hends : endsCommand q = true) (hpending : markupMachine.pending q = .nothing)
    (hq : markupTokens q = [t]) (ht : t.beginsFactor = false) (hop : t.operator? = some op) :
    MarkupReads value num (.binary op a b p) := by
  have hne : q ≠ "" := by
    rintro rfl
    cases hends
  refine markupReads_binary hfraction hlatex hne hl.begins (markupTokens_between hends hpending) ?_
  rw [hq]
  exact hl.joined hr ht hop

/-- The mark is a space, which leaves no token. -/
theorem markupReads_product (hlatex : (Expr.binary .mul a b p).latex = s ++ " " ++ r)
    (hl : OperandReads value num .mul true a s) (hr : OperandReads value num .mul false b r)
    (hapart : FactorsApart (markupTokens s) (markupTokens r)) :
    MarkupReads value num (.binary .mul a b p) := by
  have htokens :
      markupTokens (s ++ " " ++ r) = markupTokens s ++ (markupTokens " " ++ markupTokens r) :=
    markupTokens_between (by decide +kernel) (by decide +kernel)
  rw [show markupTokens " " = [] by decide +kernel] at htokens
  exact markupReads_binary rfl hlatex (by decide) hl.begins htokens (hl.product hr hapart)

/-- What is one operand. -/
theorem markupReads_operand (hbegins : BeginsOperand (markupTokens a.latex))
    (hoperand : MarkupOperand value (markupTokens a.latex) (a.sketch num))
    (htight : a.markupStrength = Expr.tightest ∧ a.markupGrip = Operator.neg.precedence) :
    MarkupReads value num a :=
  ⟨hbegins, hoperand.fits _ _, .inl htight⟩

/-! ### Nodes -/

/-- A sum or a difference. -/
theorem markupReads_sum (ha : MarkupReads value num a) (hb : MarkupReads value num b)
    (hop : op = .add ∨ op = .sub) : MarkupReads value num (.binary op a b p) := by
  obtain rfl | rfl := hop
  · exact markupReads_joined (q := "+") (t := .char '+') rfl rfl (ha.operand .add true)
      (hb.operand .add false) (by decide) rfl rfl rfl rfl
  · exact markupReads_joined (q := "-") (t := .char '-') rfl rfl (ha.operand .sub true)
      (hb.operand .sub false) (by decide) rfl rfl rfl rfl

/-- A product. -/
theorem markupReads_mul (ha : MarkupReads value num a) (hb : MarkupReads value num b)
    (hapart : b.isNumber = false → FactorsApart (markupTokens (operandMarkup .mul true a a.typeset))
      (markupTokens (operandMarkup .mul false b b.typeset))) :
    MarkupReads value num (.binary .mul a b p) := by
  have hlatex : (Expr.binary .mul a b p).latex = operandMarkup .mul true a a.typeset ++
      (if b.isNumber then " \\cdot " else " ") ++ operandMarkup .mul false b b.typeset := rfl
  cases hnumber : b.isNumber with
  | true =>
    rw [hnumber, if_pos rfl] at hlatex
    exact markupReads_joined (t := .command "cdot".toList) rfl hlatex (ha.operand .mul true)
      (hb.operand .mul false) (by decide) (by decide +kernel) (by decide +kernel) rfl rfl
  | false =>
    rw [hnumber, if_neg Bool.false_ne_true] at hlatex
    exact markupReads_product hlatex (ha.operand .mul true) (hb.operand .mul false) (hapart hnumber)

/-- A power, with its exponent in braces. -/
theorem markupReads_pow (ha : MarkupReads value num a) (hb : MarkupReads value num b) :
    MarkupReads value num (.binary .pow a b p) := by
  have hbraces : OperandReads value num .pow false b (braced b.latex) := by
    constructor
    · rw [markupTokens_braced]
      exact ⟨_, rfl, .inr (by decide)⟩
    · rw [markupTokens_braced]
      exact ⟨_, _, (markupOperand_braces hb.fits (markupStrength_pos b)).fits Expr.tightest
        Operator.neg.precedence, by decide⟩
  exact markupReads_joined (q := "^") (t := .char '^') rfl rfl (ha.operand .pow true) hbraces
    (by decide) rfl rfl rfl rfl

/-- A quotient: a fraction unless both operands are short. -/
theorem markupReads_div (ha : MarkupReads value num a) (hb : MarkupReads value num b) :
    MarkupReads value num (.binary .div a b p) := by
  have htypeset : (Expr.binary .div a b p).typeset = quotientMarkup a.latex b.latex := rfl
  unfold quotientMarkup at htypeset
  split at htypeset
  · next hlong =>
    have hlatex : (Expr.binary .div a b p).latex = "\\frac" ++ braced a.latex ++ braced b.latex :=
      congrArg Prod.fst htypeset
    have hfraction : (Expr.binary .div a b p).isFraction = true := congrArg Prod.snd htypeset
    have htokens : markupTokens (Expr.binary .div a b p).latex =
        [.command "frac".toList, .char '\x7b'] ++ (markupTokens a.latex ++
          ([.char '\x7d', .char '\x7b'] ++ (markupTokens b.latex ++ [.char '\x7d']))) := by
      rw [hlatex, markupTokens_append endsCommand_braced, markupTokens_append endsCommand_braced,
        markupTokens_braced, markupTokens_braced,
        show markupTokens "\\frac" = [.command "frac".toList] by decide +kernel]
      simp
    refine markupReads_operand ?_ ?_ ?_
    · rw [htokens]
      exact ⟨_, rfl, .inr (by decide)⟩
    · rw [htokens]
      exact markupOperand_fraction ha.fits (markupStrength_pos a) hb.fits (markupStrength_pos b)
    · rw [Expr.markupStrength, Expr.markupGrip, hfraction]
      exact ⟨rfl, rfl⟩
  · next hshort =>
    have hsizes : ¬ 1 < a.latex.utf8ByteSize ∧ ¬ 1 < b.latex.utf8ByteSize := by
      simpa [isLongQuotient] using hshort
    have hleaf {c : Expr (Complex R)} {isLeft : Bool} (hc : MarkupReads value num c)
        (hsize : ¬ 1 < c.latex.utf8ByteSize) : OperandReads value num .div isLeft c c.latex := by
      obtain ⟨hstrength, hgrip⟩ := hc.size.resolve_right hsize
      refine ⟨hc.begins, _, _, hc.fits, ?_⟩
      rw [hstrength, hgrip]
      cases isLeft <;> decide
    exact markupReads_joined (q := "/") (t := .char '/') (congrArg Prod.snd htypeset)
      (congrArg Prod.fst htypeset) (hleaf ha hsizes.1) (hleaf hb hsizes.2) (by decide) rfl rfl rfl
      rfl

/-- A negation. -/
theorem markupReads_neg (ha : MarkupReads value num a) : MarkupReads value num (.neg a) := by
  have hlatex : (Expr.neg a).latex = "-" ++ if a.isBinary then leftRight a.latex else a.latex := rfl
  have htokens : markupTokens (Expr.neg a).latex =
      [.char '-'] ++ markupTokens (if a.isBinary then leftRight a.latex else a.latex) := by
    rw [hlatex, markupTokens_append_of_pending rfl]
    rfl
  have hoperand : MarkupFits value Expr.tightest Operator.neg.precedence
      (markupTokens (if a.isBinary then leftRight a.latex else a.latex)) (a.sketch num) := by
    cases hbinary : a.isBinary with
    | true =>
      rw [if_pos rfl, markupTokens_leftRight]
      have hmem : Delimiters.parens ∈ Delimiters.all := List.mem_cons_self
      exact (markupOperand_delimited hmem ha.fits (markupStrength_pos a)).fits _ _
    | false =>
      rw [if_neg Bool.false_ne_true]
      cases a with
      | binary op c d q => cases hbinary
      | _ => exact ha.fits
  refine ⟨?_, ?_, .inl ⟨rfl, rfl⟩⟩
  · rw [htokens]
    exact ⟨_, rfl, .inl rfl⟩
  · rw [htokens]
    exact (markupFits_negation hoperand (Nat.lt_succ_self _) _).mono (Nat.le_refl _)
      (Nat.min_self _).ge

/-- A call. -/
theorem markupReads_call (hf : f ∈ Delimiters.functions) (ha : MarkupReads value num a) :
    MarkupReads value num (.call f a p) := by
  have hmem : Delimiters.ofFunction f ∈ Delimiters.all :=
    List.mem_cons_of_mem _ (List.mem_map_of_mem hf)
  have htokens : markupTokens (Expr.call f a p).latex = (Delimiters.ofFunction f).opening ++
      (markupTokens a.latex ++ (Delimiters.ofFunction f).closing) := by
    unfold Delimiters.ofFunction
    split
    · next hroot =>
      have hlatex : (Expr.call f a p).latex = f.markup ++ braced a.latex := by
        rcases hroot with rfl | rfl <;> rfl
      rw [hlatex, markupTokens_append endsCommand_braced, markupTokens_braced, List.append_assoc]
    · next hroot =>
      have hlatex : (Expr.call f a p).latex = f.markup ++ leftRight a.latex := by
        cases f <;> first | rfl | exact absurd (.inl rfl) hroot | exact absurd (.inr rfl) hroot
      rw [hlatex, markupTokens_append endsCommand_leftRight, markupTokens_leftRight,
        List.append_assoc]
  have htree : (Delimiters.ofFunction f).tree (a.sketch num) = .call f (a.sketch num) none := by
    unfold Delimiters.ofFunction
    split <;> rfl
  refine markupReads_operand ?_ ?_ ⟨rfl, rfl⟩
  · rw [htokens]
    exact beginsOperand_delimited hmem _
  · rw [htokens, Expr.sketch, ← htree]
    exact markupOperand_delimited hmem ha.fits (markupStrength_pos a)

/-! ### Leaves -/

/-- A real number. -/
theorem markupReads_number {v : Complex R} (hreal : (v.im == 0) = true)
    (hplain : isPlainNumeral (text v.re).toList = true)
    (hvalue : value (text v.re).toList = some (num v)) : MarkupReads value num (.number v) := by
  have hlatex : (Expr.number v).latex = text v.re := by
    show numberMarkup v = _
    unfold numberMarkup numberText
    rw [bne, hreal, Bool.not_true, Bool.false_and, if_neg Bool.false_ne_true, if_pos rfl]
  obtain ⟨hne, hchars⟩ := chars_of_isPlainNumeral hplain
  have hdigits : ∀ c ∈ (text v.re).toList, isDigitOrPoint c = true := by
    intro c hc
    unfold isDigitOrPoint
    rcases hchars c hc with hdigit | rfl
    · rw [hdigit, Bool.true_or]
    · rfl
  have htokens : markupTokens (Expr.number v).latex = (text v.re).toList.map .char := by
    rw [hlatex]
    exact markupTokens_of_chars fun c hc =>
      ⟨ne_of_isPlainNumeral hplain hc (by decide) (by decide),
        ne_of_isPlainNumeral hplain hc (by decide) (by decide)⟩
  refine markupReads_operand ?_ ?_ ⟨rfl, rfl⟩
  · rw [htokens]
    obtain ⟨d, ds, hcons⟩ := List.exists_cons_of_ne_nil hne
    rw [hcons] at hdigits ⊢
    refine ⟨.char d, rfl, .inr ?_⟩
    simp [MarkupToken.beginsFactor, hdigits d List.mem_cons_self]
  · rw [htokens]
    exact markupOperand_number hne hdigits hvalue

/-- What is written as one letter. -/
theorem markupReads_letter {c : Char} (hc : isNameStart c = true)
    (hlatex : a.latex = String.singleton c) (hsketch : a.sketch num = letter c)
    (htight : a.markupStrength = Expr.tightest ∧ a.markupGrip = Operator.neg.precedence) :
    MarkupReads value num a := by
  have hne {d : Char} (hd : isNameStart d = false) : c ≠ d := by
    rintro rfl
    rw [hd] at hc
    cases hc
  have htokens : markupTokens a.latex = [.char c] := by
    have hslash : c ≠ '\\' := hne (by decide)
    have hspace : c ≠ ' ' := hne (by decide)
    rw [hlatex, markupTokens_of_chars]
    · simp
    · simpa using ⟨hslash, hspace⟩
  refine markupReads_operand ?_ ?_ htight
  · rw [htokens]
    exact ⟨.char c, rfl, .inr (by simp [MarkupToken.beginsFactor, hc])⟩
  · rw [htokens, hsketch]
    exact markupOperand_letter hc

/-- A variable of one letter or with a Greek name. -/
theorem markupReads_named {n : String} (hx : n ≠ argumentName)
    (hn : n ∈ greekNames ∨ IsLetterName n) : MarkupReads value num (.named n p) := by
  have hlatex : (Expr.named n p : Expr (Complex R)).latex = nameMarkup n := rfl
  by_cases hgreek : n ∈ greekNames
  · have hall : ∀ n ∈ greekNames, markupTokens (nameMarkup n) = [.command n.toList] ∧
        (MarkupToken.command n.toList).beginsFactor = true := by
      decide +kernel
    obtain ⟨htokens, hfactor⟩ := hall n hgreek
    rw [← hlatex] at htokens
    refine markupReads_operand ?_ ?_ ⟨rfl, rfl⟩
    · rw [htokens]
      exact ⟨_, rfl, .inr hfactor⟩
    · rw [htokens]
      exact markupOperand_greek hgreek
  · obtain ⟨c, rfl, hc⟩ := hn.resolve_left hgreek
    refine markupReads_letter hc ?_ ?_ ⟨rfl, rfl⟩
    · rw [hlatex, nameMarkup, if_neg hgreek]
    · rw [letter, if_neg hx]
      rfl

/-! ### Trees -/

theorem Expr.ProductsApart.of_mem {s : Expr (Complex R)} (h : a.ProductsApart)
    (hs : s ∈ a.subtrees) : s.ProductsApart :=
  fun b c p hmem => h b c p (subtrees_subset hs hmem)

/-- The markup of every tree whose products are kept apart is read as the tree. -/
theorem markupReads_of_leaves (ha : a.LeavesHold (markupLeaves value num))
    (hproducts : a.ProductsApart) : MarkupReads value num a := by
  induction a with
  | number v => exact markupReads_number ha.1 ha.2.1 ha.2.2
  | argument => exact markupReads_letter (c := 'x') (by decide) rfl rfl ⟨rfl, rfl⟩
  | named n p => exact markupReads_named ha.1 ha.2
  | neg a ih => exact markupReads_neg (ih ha (hproducts.of_mem (Expr.mem_subtrees_neg a)))
  | binary op a b p iha ihb =>
    have hl := iha ha.1 (hproducts.of_mem (Expr.mem_subtrees_left op a b p))
    have hr := ihb ha.2 (hproducts.of_mem (Expr.mem_subtrees_right op a b p))
    cases op with
    | add => exact markupReads_sum hl hr (.inl rfl)
    | sub => exact markupReads_sum hl hr (.inr rfl)
    | mul => exact markupReads_mul hl hr (hproducts a b p (Expr.mem_subtrees_self _))
    | div => exact markupReads_div hl hr
    | pow => exact markupReads_pow hl hr
  | call f a p ih =>
    exact markupReads_call ha.1 (ih ha.2 (hproducts.of_mem (Expr.mem_subtrees_call f a p)))

/-- A variable of one letter that was read begins like a name, as it is one. -/
theorem isLetterName_of_length_eq_one {s : String} {l : Placed} (hl : l ∈ written s)
    (hname : l.isName = true) (hlength : l.text.length = 1) : IsLetterName l.text := by
  have hcls := cls_of_isName hname
  have hword := isWordText_of_mem_lexemes (mem_lexemes_of_isName hl hname) hcls
  have htext : l.text.toList = lower l.lexeme.chars := by
    unfold Placed.text Lexeme.text
    rw [if_pos (beq_iff_eq.2 hcls), String.toList_ofList]
  obtain ⟨c, hc⟩ := List.length_eq_one_iff.1 (String.length_toList.trans hlength)
  have hsingle : l.text = String.singleton c := String.toList_inj.1 (by simpa using hc)
  refine ⟨c, hsingle, isNameStart_of_mem_head?_lower hword ?_⟩
  rw [← htext, hc]
  rfl

/-- The leaves of a parsed tree of real numbers with names of one letter. -/
theorem markupLeaves_of_parse [TextLaws R] {s : String} (hparse : parse s = .ok a)
    (hreal : RealNumbers a) (hnames : ∀ n ∈ a.variableNames, n ∈ greekNames ∨ n.length = 1)
    (hvalue : ∀ v, .number v ∈ a.subtrees → value (text v.re).toList = some (num v)) :
    a.LeavesHold (markupLeaves value num) := by
  let N (n : String) : Prop := n ≠ argumentName ∧ (n.length = 1 → IsLetterName n)
  have hderived : a.LeavesHold (derivedLeaves N) :=
    derivedLeaves_of_parse hparse
      (fun l hl hname hx => ⟨hx, isLetterName_of_length_eq_one hl hname⟩)
      ⟨by decide, fun _ => ⟨'e', rfl, by decide⟩⟩
  refine Expr.leavesHold_of_leaves (fun v hv => ?_) (fun n p hn => ?_) fun f b p hf => ?_
  · obtain ⟨hfinite, hzero⟩ : v.isFinite = true ∧ v.noMinusZero = true := hderived.of_mem hv
    have hsign : lt v.re 0 = false := (unsignedLeaves_of_parse hparse).of_mem hv
    have hplain := TextLaws.isPlainNumeral_text v.re (Complex.isFinite_iff.1 hfinite).1 hsign
      (Complex.noMinusZero_iff.1 hzero).1
    exact ⟨hreal.of_mem hv, hplain, hvalue v hv⟩
  · obtain ⟨hx, hletter⟩ : N n := hderived.of_mem hn
    exact ⟨hx, (hnames n (Expr.mem_variableNames_iff.2 ⟨p, hn⟩)).imp_right hletter⟩
  · obtain ⟨hexp, hln⟩ := (hderived.of_mem hf).1
    exact List.mem_filter.2 ⟨f.mem_all, decide_eq_true ⟨hexp, hln⟩⟩

/-- Markup that is read as a tree has no other reading. -/
theorem MarkupReads.reads_iff (h : MarkupReads value num a) (b : Expr N) (rest : List MarkupToken) :
    Reads (markupConventions value) (.expr 0) (markupTokens a.latex) b rest ↔
      b = a.sketch num ∧ rest = [] :=
  Fits.reads_iff h.fits (markupStrength_pos a) (fun hends => nomatch hends.2.choose_spec.1) rfl

/-- The number that a numeral stands for. -/
def numeralValue? (cs : List Char) : Option (Complex R) :=
  (realValue? cs).map Complex.ofReal

/-- A legible number without a sign is read as itself. -/
theorem numeralValue?_text [ZeroLaws R] {v : Complex R} (hreal : (v.im == 0) = true)
    (hzero : v.noMinusZero = true) (hsign : lt v.re 0 = false) (hlegible : v.Legible) :
    numeralValue? (text v.re).toList = some v := by
  have hre := hlegible.1.2
  rw [magnitude_of_not_lt hsign] at hre
  rw [numeralValue?, hre, Option.map_some, Complex.ofReal,
    ← ZeroLaws.eq_zero v.im hreal (Complex.noMinusZero_iff.1 hzero).2]

/-- The markup of a parsed tree of real numbers that are read as themselves. -/
theorem markupReads_of_parse [TextLaws R] {s : String} (hparse : parse s = .ok a)
    (hreal : RealNumbers a) (hnames : ∀ n ∈ a.variableNames, n ∈ greekNames ∨ n.length = 1)
    (hproducts : a.ProductsApart) (hlegible : LegibleNumbers a) :
    MarkupReads numeralValue? id a := by
  have hplain := plainLeaves_of_parse hparse
  have hsign := unsignedLeaves_of_parse hparse
  have hvalue : ∀ v, .number v ∈ a.subtrees → numeralValue? (text v.re).toList = some (id v) :=
    fun v hv => numeralValue?_text (hreal.of_mem hv) (hplain.of_mem hv).2 (hsign.of_mem hv)
      (hlegible.of_mem hv)
  exact markupReads_of_leaves (markupLeaves_of_parse hparse hreal hnames hvalue) hproducts

/-- The markup of a parsed tree of real numbers, with names of one letter or Greek ones and with its
products kept apart, has one reading: the tree, with its numbers as they are written. Where these
are read as themselves, it is the tree itself. -/
theorem reads_latex_iff [TextLaws R] {s : String} {a : Expr (Complex R)} (hparse : parse s = .ok a)
    (hreal : RealNumbers a) (hnames : ∀ n ∈ a.variableNames, n ∈ greekNames ∨ n.length = 1)
    (hproducts : a.ProductsApart) :
    (∀ b rest, Reads (markupConventions some) (.expr 0) (markupTokens a.latex) b rest ↔
      b = a.sketch (fun v => (text v.re).toList) ∧ rest = []) ∧
    (LegibleNumbers a → ∀ b rest,
      Reads (markupConventions numeralValue?) (.expr 0) (markupTokens a.latex) b rest ↔
        b = a.unplaced ∧ rest = []) := by
  constructor
  · have hleaves : a.LeavesHold (markupLeaves some _) :=
      markupLeaves_of_parse hparse hreal hnames fun v _ => rfl
    exact (markupReads_of_leaves hleaves hproducts).reads_iff
  · intro hlegible
    rw [← Expr.sketch_id a]
    exact (markupReads_of_parse hparse hreal hnames hproducts hlegible).reads_iff

/-- Whole numbers that are written with their own digits. -/
theorem legibleNumbers_whole {n : Nat} (hn : n ∈ [2, 3, 23]) :
    LegibleNumbers (.number (.ofReal (ofDecimal ⟨n, 0⟩ : Double))) := by
  have hall : ∀ n ∈ [0, 2, 3, 23],
      isPlainNumeral (text (ofDecimal ⟨n, 0⟩ : Double)).toList = true ∧
        Decimal.ofNumeral? (text (ofDecimal ⟨n, 0⟩ : Double)).toList = some ⟨n, 0⟩ := by
    decide +kernel
  have hlegible {m : Nat} (hm : m ∈ [0, 2, 3, 23]) :
      Legible (magnitude (ofDecimal ⟨m, 0⟩ : Double)) :=
    legible_ofDecimal (hall m hm).1 (hall m hm).2
  exact ⟨hlegible (List.mem_cons_of_mem _ hn), hlegible List.mem_cons_self⟩

/-- Machine numbers have the laws: the markup of `2*y` is read as a product. -/
theorem reads_latex_iff_product :
    ∃ a : Expr (Complex Double), parse "2*y" = .ok a ∧ RealNumbers a ∧
      (∀ n ∈ a.variableNames, n ∈ greekNames ∨ n.length = 1) ∧ a.ProductsApart ∧ LegibleNumbers a ∧
      ∀ b rest, Reads (markupConventions numeralValue?) (.expr 0) (markupTokens a.latex) b rest ↔
        b = a.unplaced ∧ rest = [] := by
  have hwritten : written "2*y" =
      [⟨⟨.numeral, ['2']⟩, 0⟩, ⟨⟨.sign, ['*']⟩, 1⟩, ⟨⟨.word, ['y']⟩, 2⟩] := by
    decide +kernel
  let two : Expr (Complex Double) := .number (.ofReal (ofDecimal ⟨2, 0⟩))
  let y : Expr (Complex Double) := .named "y" (some 2)
  let a : Expr (Complex Double) := .binary .mul two y (some 1)
  have htwo : Denotes .primary [⟨⟨.numeral, ['2']⟩, 0⟩] two :=
    denotes_numeral rfl (by decide +kernel) _
  have hy : Denotes .primary [⟨⟨.word, ['y']⟩, 2⟩] y :=
    .name (by decide +kernel) (by decide +kernel)
  have hparse : parse "2*y" = .ok a := by
    refine parse_of_denotes ?_
    rw [hwritten]
    exact .ofTerm (.factor (c := '*') rfl rfl (htwo.widen (by decide)) (hy.widen (by decide)))
  have hreal : RealNumbers a := ⟨show ((0 : Double) == 0) = true by decide +kernel, trivial⟩
  have hnames : ∀ n ∈ a.variableNames, n ∈ greekNames ∨ n.length = 1 := by decide +kernel
  have hproducts : a.ProductsApart := by
    intro b c p hmem _
    obtain ⟨rfl, rfl, -⟩ : b = two ∧ c = y ∧ p = some 1 := by
      simpa [a, two, y, Expr.subtrees] using hmem
    have hright : markupTokens (operandMarkup .mul false y y.typeset) = [.char 'y'] := by
      decide +kernel
    rw [hright]
    refine ⟨by decide, fun hends => not_beginsWithNumeral_cons (fun c hc => ?_) hends.2⟩
    cases hc
    decide
  have hlegible : LegibleNumbers a := ⟨legibleNumbers_whole (by decide), trivial⟩
  exact ⟨a, hparse, hreal, hnames, hproducts, hlegible,
    (reads_latex_iff hparse hreal hnames hproducts).2 hlegible⟩

/-- The markup of the formula in the first text is read as the different one in the second. -/
def IsMisread (s t : String) : Prop :=
  ∃ a c : Expr (Complex Double), parse s = .ok a ∧ RealNumbers a ∧ LegibleNumbers a ∧
    a.variableNames = [] ∧ parse t = .ok c ∧ c.unplaced ≠ a.unplaced ∧
    ∀ b rest, Reads (markupConventions numeralValue?) (.expr 0) (markupTokens a.latex) b rest ↔
      b = c.unplaced ∧ rest = []

/-- Markup with the tokens of another formula is read as that one. -/
theorem isMisread_of_tokens {s t : String} {a c : Expr (Complex Double)}
    (ha : Denotes .expr (written s) a) (hreal : RealNumbers a) (hlegible : LegibleNumbers a)
    (hnames : a.variableNames = []) (hc : Denotes .expr (written t) c) (hreal' : RealNumbers c)
    (hlegible' : LegibleNumbers c) (hnames' : c.variableNames = []) (hproducts : c.ProductsApart)
    (hne : c.unplaced ≠ a.unplaced) (htokens : markupTokens a.latex = markupTokens c.latex) :
    IsMisread s t := by
  have hparse := parse_of_denotes hc
  have hnone : ∀ n ∈ c.variableNames, n ∈ greekNames ∨ n.length = 1 := by
    rw [hnames']
    exact fun _ hn => absurd hn List.not_mem_nil
  refine ⟨a, c, parse_of_denotes ha, hreal, hlegible, hnames, hparse, hne, ?_⟩
  rw [htokens, ← Expr.sketch_id c]
  exact (markupReads_of_parse hparse hreal' hnone hproducts hlegible').reads_iff

/-- Not all markup is read as its formula. A factor with a minus sign is subtracted, and one that
begins with digits goes on with the number before it. -/
theorem isMisread_products : IsMisread "x*-2" "x-2" ∧ IsMisread "2*3^x" "23^x" := by
  let num (n : Nat) : Expr (Complex Double) := .number (.ofReal (ofDecimal ⟨n, 0⟩))
  have hx (p : Nat) : Denotes .primary [⟨⟨.word, ['x']⟩, p⟩] (.argument : Expr (Complex Double)) :=
    .argument (show Placed.isName ⟨⟨.word, ['x']⟩, 0⟩ = true by decide +kernel)
      (show Placed.text ⟨⟨.word, ['x']⟩, 0⟩ = argumentName by decide +kernel)
  have htwo (p : Nat) : Denotes .primary [⟨⟨.numeral, ['2']⟩, p⟩] (num 2) :=
    denotes_numeral rfl (by decide +kernel) _
  have hthree (p : Nat) : Denotes .primary [⟨⟨.numeral, ['3']⟩, p⟩] (num 3) :=
    denotes_numeral rfl (by decide +kernel) _
  have hlong (p : Nat) : Denotes .primary [⟨⟨.numeral, ['2', '3']⟩, p⟩] (num 23) :=
    denotes_numeral rfl (by decide +kernel) _
  have hreal (n : Nat) : RealNumbers (num n) := show ((0 : Double) == 0) = true by decide +kernel
  have hlegible : LegibleNumbers (num 2) := legibleNumbers_whole (by decide)
  have hlegible' : LegibleNumbers (num 3) := legibleNumbers_whole (by decide)
  have hlegible'' : LegibleNumbers (num 23) := legibleNumbers_whole (by decide)
  constructor
  · have ha : Denotes .expr (written "x*-2") (.binary .mul .argument (.neg (num 2)) (some 1)) := by
      rw [show written "x*-2" = [⟨⟨.word, ['x']⟩, 0⟩, ⟨⟨.sign, ['*']⟩, 1⟩, ⟨⟨.sign, ['-']⟩, 2⟩,
        ⟨⟨.numeral, ['2']⟩, 3⟩] by decide +kernel]
      exact .ofTerm (.factor (c := '*') rfl rfl ((hx 0).widen (by decide))
        (.ofUnary (.neg rfl (.ofPrimary (htwo 3)))))
    have hc : Denotes .expr (written "x-2") (.binary .sub .argument (num 2) (some 1)) := by
      rw [show written "x-2" = [⟨⟨.word, ['x']⟩, 0⟩, ⟨⟨.sign, ['-']⟩, 1⟩, ⟨⟨.numeral, ['2']⟩, 2⟩] by
        decide +kernel]
      exact .summand (c := '-') rfl rfl ((hx 0).widen (by decide)) ((htwo 2).widen (by decide))
    have hproducts : (Expr.binary .sub .argument (num 2) (some 1)).ProductsApart := by
      intro b c p hmem
      simp [num, Expr.subtrees] at hmem
    refine isMisread_of_tokens ha ⟨trivial, hreal 2⟩ ⟨trivial, hlegible⟩ rfl hc ⟨trivial, hreal 2⟩
      ⟨trivial, hlegible⟩ rfl hproducts ?_ (by decide +kernel)
    intro heq
    cases heq
  · have ha : Denotes .expr (written "2*3^x")
        (.binary .mul (num 2) (.binary .pow (num 3) .argument (some 3)) (some 1)) := by
      rw [show written "2*3^x" = [⟨⟨.numeral, ['2']⟩, 0⟩, ⟨⟨.sign, ['*']⟩, 1⟩,
        ⟨⟨.numeral, ['3']⟩, 2⟩, ⟨⟨.sign, ['^']⟩, 3⟩, ⟨⟨.word, ['x']⟩, 4⟩] by decide +kernel]
      exact .ofTerm (.factor (c := '*') rfl rfl ((htwo 0).widen (by decide))
        (.pow rfl (.ofPrimary (hthree 2)) ((hx 4).widen (by decide))))
    have hc : Denotes .expr (written "23^x") (.binary .pow (num 23) .argument (some 2)) := by
      rw [show written "23^x" = [⟨⟨.numeral, ['2', '3']⟩, 0⟩, ⟨⟨.sign, ['^']⟩, 2⟩,
        ⟨⟨.word, ['x']⟩, 3⟩] by decide +kernel]
      exact .ofTerm (.ofPower (.pow rfl (.ofPrimary (hlong 0)) ((hx 3).widen (by decide))))
    have hproducts : (Expr.binary .pow (num 23) .argument (some 2)).ProductsApart := by
      intro b c p hmem
      simp [num, Expr.subtrees] at hmem
    refine isMisread_of_tokens ha ⟨hreal 2, hreal 3, trivial⟩ ⟨hlegible, hlegible', trivial⟩ rfl hc
      ⟨hreal 23, trivial⟩ ⟨hlegible'', trivial⟩ rfl hproducts ?_ (by decide +kernel)
    intro heq
    cases heq

end Formulary
