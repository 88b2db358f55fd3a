import Formulary.Proofs.Expr.Idempotence
import Formulary.Proofs.Expr.Steps
import Formulary.Proofs.Printing.Reread

/-!
# Printed formulas are read back

The text of a formula that was read, simplified and differentiated is read as the same formula: it
has the same values and the same errors. A formula straight from its text, with real numbers only,
comes back as the same tree.

* `HasAsciiNames s`: the variables of the text are written in the first 128 characters.
* `sourceLeaves`: the leaves of such formulas. `sourceLeaves_of_reaches` is the invariant.
* `LegibleNumbers a`: the numbers of the tree are written as plain numerals that read as themselves.
* `exists_parse_text`: the text is parsed as the printed tree with numbers put together.
* `beq_of_parse_text`: a tree of real numbers straight from a text is parsed as itself.
* **`parse_text_of_reaches`**: the statement for all trees that a text leads to.
-/

namespace Formulary

open RealArith

universe u

variable {R : Type u} [RealArith R]

/-- The variables of the text are written in the first 128 characters. -/
def HasAsciiNames (s : String) : Prop :=
  ∀ l ∈ written s, l.isName = true → ∀ c ∈ l.lexeme.chars, Text.isAscii c = true

/-- Finite numbers without a negative zero, plain names, and functions that are read as such. -/
def sourceLeaves : LeafProperty (Complex R) where
  number v := v.isFinite = true ∧ v.noMinusZero = true
  name n := IsPlainName n
  function f := f ≠ .exp ∧ f ≠ .ln

/-- Numbers that are written as plain numerals and read as themselves. -/
def legibleLeaves : LeafProperty (Complex R) where
  number v := v.Legible
  name _ := True
  function _ := True

/-- The numbers of the tree are written as plain numerals and read as themselves. -/
def LegibleNumbers (a : Expr (Complex R)) : Prop :=
  a.LeavesHold legibleLeaves

/-- Real numbers. -/
def realLeaves : LeafProperty (Complex R) where
  number v := (v.im == 0) = true
  name _ := True
  function _ := True

/-- No number of the tree has an imaginary part. -/
def RealNumbers (a : Expr (Complex R)) : Prop :=
  a.LeavesHold realLeaves

/-- Numbers whose real part has no minus sign. -/
def unsignedLeaves : LeafProperty (Complex R) where
  number v := lt v.re 0 = false
  name _ := True
  function _ := True

/-! ### The trees of a text -/

section Source

variable [ZeroLaws R]

/-- Fusing leaves the names of a text as they are. -/
theorem mem_lexemes_of_isName {s : String} {l : Placed} (hl : l ∈ written s)
    (hname : l.isName = true) : l.lexeme ∈ lexemes s.toList :=
  mem_lexemes_of_word hl (cls_of_isName hname)

/-- The leaves of a tree that was read. -/
theorem sourceLeaves_of_parse {s : String} {a : Expr (Complex R)} (h : parse s = .ok a)
    (hdot : ∀ l ∈ written s, l.isName = true → 'İ' ∉ l.lexeme.chars) :
    a.LeavesHold sourceLeaves := by
  refine derivedLeaves_of_parse h (fun l hl hname hx => ?_) isPlainName_euler
  have hword := isWordText_of_mem_lexemes (mem_lexemes_of_isName hl hname) (cls_of_isName hname)
  exact isPlainName_of_word hname hx hword (hdot l hl hname)

/-- The leaves of the trees that a text leads to. -/
theorem sourceLeaves_of_reaches {s : String} {a b : Expr (Complex R)} (h : parse s = .ok a)
    (hascii : HasAsciiNames s) (hreach : a.Reaches b) : b.LeavesHold sourceLeaves :=
  derivedLeaves_of_reaches hreach <| sourceLeaves_of_parse h fun l hl hname hdot =>
    absurd (hascii l hl hname 'İ' hdot) (by decide)

end Source

theorem printable_of_source {a : Expr (Complex R)} (h : a.LeavesHold sourceLeaves)
    (hlegible : LegibleNumbers a) : a.LeavesHold printableLeaves :=
  h.both hlegible (fun _ h h' => ⟨h.1, h.2, h'⟩) (fun _ h _ => h) fun _ h _ => h

theorem plain_of_source {a : Expr (Complex R)} (h : a.LeavesHold sourceLeaves) :
    a.LeavesHold plainLeaves :=
  h.both h (fun _ h _ => h) (fun _ _ _ => trivial) fun _ _ _ => trivial

/-! ### Reading the text -/

section Text

variable [ZeroLaws R]

theorem written_text {a : Expr (Complex R)} (h : a.LeavesHold printableLeaves) :
    written a.text = fusePlaced true (placed 0 a.printed) := by
  unfold written
  rw [lexemes_text h]
  refine placed_fuse 0 fun l hl _ => ?_
  rw [← lexemes_text h] at hl
  exact chars_ne_nil_of_mem_lexemes hl

/-- The text is parsed as the tree that was printed, with numerals put together. -/
theorem exists_parse_text {a : Expr (Complex R)} (h : a.LeavesHold printableLeaves) :
    ∃ b c, parse a.text = .ok c ∧ Fuses b c ∧ b.LeavesHold plainLeaves ∧
      b.unplaced = a.reread.unplaced := by
  obtain ⟨b, hb, hplace⟩ := (prints_printed h).widen (rank_phrase_le a) 0
  obtain ⟨c, hc, hfuses⟩ := denotes_fusePlaced hb fun l hl => by
    have hmem := (mem_placed hl).1
    rw [← lexemes_text h] at hmem
    exact isSimple_of_mem_lexemes hmem
  refine ⟨b, c, parse_of_denotes ?_, hfuses, plainLeaves_of_denotes hb, hplace⟩
  rw [written_text h]
  exact hc

/-- The tree that is read has the values and the errors of the tree that was printed. -/
theorem sameOutcome_of_parse_text {a c : Expr (Complex R)} (h : a.LeavesHold printableLeaves)
    (hplain : a.LeavesHold plainLeaves) (hc : parse a.text = .ok c) {x : Complex R}
    {vars : Vars (Complex R)} (mode : EvalMode) (hx : x.noMinusZero = true)
    (hvars : vars.noMinusZero = true) :
    SameOutcome (c.eval x vars mode) (a.eval x vars mode) := by
  obtain ⟨b, c', hc', hfuses, hb, hplace⟩ := exists_parse_text h
  rw [hc'] at hc
  cases hc
  rw [← Expr.eval_of_fuses mode hx hvars hfuses hb, ← eval_reread x vars mode hplain]
  exact Expr.sameOutcome_of_unplaced x vars mode hplace

end Text

/-! ### Real numbers -/

/-- Without imaginary numerals there is nothing to fuse. -/
theorem fuse_eq_self {opens : Bool} {ls : List Lexeme} (h : ∀ l ∈ ls, l.isImaginary = false) :
    fuse opens ls = ls := by
  fun_induction fuse opens ls with
  | case1 opens a p b ls hfuse ih =>
    rw [h b (by simp), Bool.and_false, Bool.false_and] at hfuse
    exact absurd hfuse Bool.false_ne_true
  | case2 opens a p b ls hfuse ih =>
    rw [ih fun l hl => h l (List.mem_cons_of_mem _ hl)]
  | case3 opens ls hshort => rfl

theorem Part.isImaginary_of_mem_printed {r : R} (h : Legible (magnitude r)) :
    ∀ l ∈ Part.real.printed r, l.isImaginary = false := by
  have hnumeral {r : R} (hr : Legible r) : (Part.real.numeral r).isImaginary = false := by
    unfold Part.numeral Lexeme.isImaginary
    rw [show Part.real.unit = [] from rfl, List.append_nil, getLast?_of_isPlainNumeral hr.1]
    rfl
  intro l hl
  unfold Part.printed at hl
  split at hl
  · next hlt =>
    rcases List.mem_cons.1 hl with rfl | hl
    · rfl
    · rw [List.mem_singleton.1 hl]
      exact hnumeral (Part.legible_of_lt h hlt)
  · next hlt =>
    rw [magnitude_of_not_lt (Bool.not_eq_true _ ▸ hlt)] at h
    rw [List.mem_singleton.1 hl]
    exact hnumeral h

/-- A tree of real numbers is printed without imaginary numerals. -/
theorem isImaginary_of_mem_printed {a : Expr (Complex R)} (hreal : RealNumbers a)
    (hlegible : LegibleNumbers a) : ∀ l ∈ a.printed, l.isImaginary = false := by
  have hleaves : a.LeavesHold
      ⟨fun v => (v.im == 0) = true ∧ v.Legible, fun _ => True, fun _ => True⟩ :=
    hreal.both hlegible (fun _ h h' => ⟨h, h'⟩) (fun _ _ _ => trivial) fun _ _ _ => trivial
  refine forall_mem_printed hleaves (fun _ _ => rfl) (fun v hv => ?_) rfl (fun _ _ => rfl)
    fun _ _ => rfl
  unfold printedNumber
  rw [if_pos hv.1]
  exact Part.isImaginary_of_mem_printed hv.2.1

section Real

variable [ZeroLaws R]

/-- Unsigned real numbers are read as they are. -/
theorem reread_of_realNumbers {a : Expr (Complex R)} (hreal : RealNumbers a)
    (hplain : a.LeavesHold plainLeaves) (hsign : a.LeavesHold unsignedLeaves) : a.reread = a := by
  induction a with
  | number v =>
    have him : (v.im == 0) = true := hreal
    have hre : lt v.re 0 = false := hsign
    have hzero := ZeroLaws.eq_zero _ him (Complex.noMinusZero_iff.1 hplain.2).2
    show rereadNumber v = .number v
    unfold rereadNumber Part.reread
    rw [if_pos him, hre, if_neg Bool.false_ne_true]
    exact congrArg (fun i => Expr.number (⟨v.re, i⟩ : Complex R)) hzero.symm
  | argument => rfl
  | named name p => rfl
  | neg a ih => exact congrArg Expr.neg (ih hreal hplain hsign)
  | binary op a b p iha ihb =>
    show Expr.binary op a.reread b.reread p = _
    rw [iha hreal.1 hplain.1 hsign.1, ihb hreal.2 hplain.2 hsign.2]
  | call f a p ih =>
    show Expr.call f a.reread p = _
    rw [ih hreal.2 hplain.2 hsign.2]

/-- The numbers of a parsed tree have no minus sign. -/
theorem unsignedLeaves_of_parse {s : String} {a : Expr (Complex R)} (h : parse s = .ok a) :
    a.LeavesHold unsignedLeaves :=
  leavesHold_of_denotes (denotes_of_parse h) (fun _ _ _ hv => lt_zero_of_readNumber hv)
    (fun _ _ _ _ => trivial) trivial fun _ _ _ => trivial

/-- A tree of real numbers straight from a text is parsed from its own text. -/
theorem beq_of_parse_text {s : String} {a b : Expr (Complex R)} (h : parse s = .ok a)
    (hprint : a.LeavesHold printableLeaves) (hlegible : LegibleNumbers a) (hreal : RealNumbers a)
    (hb : parse a.text = .ok b) : (b == a) = true := by
  obtain ⟨c, hc, hplace⟩ := (prints_printed hprint).widen (rank_phrase_le a) 0
  have hwritten : written a.text = placed 0 a.printed := by
    unfold written
    rw [lexemes_text hprint, fuse_eq_self (isImaginary_of_mem_printed hreal hlegible)]
  have hparse : parse a.text = .ok c := parse_of_denotes (hwritten ▸ hc)
  rw [hparse] at hb
  obtain rfl : c = b := Except.ok.inj hb
  rw [reread_of_realNumbers hreal (plainLeaves_of_parse h) (unsignedLeaves_of_parse h)] at hplace
  show Expr.beq c a = true
  rw [← Expr.beq_unplaced, hplace, Expr.beq_unplaced]
  exact Expr.beq_self_of_isDefined (Expr.isDefined_of_parse h)

end Real

/-! ### All trees of a text -/

/-- The text of every tree that a text leads to is parsed. What is read has the same value or the
same error up to its place, and a tree of real numbers straight from the text is read as itself. -/
theorem parse_text_of_reaches [ZeroLaws R] {s : String} {a₀ a : Expr (Complex R)}
    (hparse : parse s = .ok a₀) (hascii : HasAsciiNames s) (hreach : a₀.Reaches a)
    (hlegible : LegibleNumbers a) :
    ∃ b : Expr (Complex R), parse a.text = .ok b ∧
      (∀ (x : Complex R) (vars : Vars (Complex R)) (mode : EvalMode), x.noMinusZero = true →
        vars.noMinusZero = true → SameOutcome (b.eval x vars mode) (a.eval x vars mode)) ∧
      (a = a₀ → RealNumbers a → (b == a) = true) := by
  have hsource := sourceLeaves_of_reaches hparse hascii hreach
  have hprint := printable_of_source hsource hlegible
  obtain ⟨_, b, hb, _⟩ := exists_parse_text hprint
  refine ⟨b, hb, fun x vars mode hx hvars =>
    sameOutcome_of_parse_text hprint (plain_of_source hsource) hb mode hx hvars, ?_⟩
  rintro rfl hreal
  exact beq_of_parse_text hparse hprint hlegible hreal hb

/-- A decimal that is written as a plain numeral with the same digits is legible. -/
theorem legible_ofDecimal [ZeroLaws R] {d : Decimal}
    (hplain : isPlainNumeral (text (ofDecimal d : R)).toList = true)
    (hread : Decimal.ofNumeral? (text (ofDecimal d : R)).toList = some d) :
    Legible (magnitude (ofDecimal d : R)) := by
  rw [magnitude_of_not_lt (ZeroLaws.lt_ofDecimal_zero d)]
  refine ⟨hplain, ?_⟩
  unfold realValue?
  rw [hread]
  rfl

/-- Machine numbers have the laws: `2.5-y` is read from its own text as the same tree, and its
derivative is read with the same values. -/
theorem parse_text_of_reaches_double :
    ∃ a a' b b' : Expr (Complex Double), parse "2.5-y" = .ok a ∧ a.differentiate = .ok a' ∧
      parse a.text = .ok b ∧ (b == a) = true ∧ parse a'.text = .ok b' ∧
      ∀ x vars mode, x.noMinusZero = true → vars.noMinusZero = true →
        SameOutcome (b'.eval x vars mode) (a'.eval x vars mode) := by
  have hzero : Legible (magnitude (ofDecimal ⟨0, 0⟩ : Double)) :=
    legible_ofDecimal (by decide +kernel) (by decide +kernel)
  have hnumber : Legible (magnitude (ofDecimal ⟨25, -1⟩ : Double)) :=
    legible_ofDecimal (by decide +kernel) (by decide +kernel)
  have hwritten : written "2.5-y" = [⟨⟨.numeral, ['2', '.', '5']⟩, 0⟩, ⟨⟨.sign, ['-']⟩, 3⟩,
      ⟨⟨.word, ['y']⟩, 4⟩] := by
    decide +kernel
  have hascii : HasAsciiNames "2.5-y" := by
    have hall : (written "2.5-y").all (·.lexeme.chars.all Text.isAscii) = true := by
      rw [hwritten]
      decide +kernel
    exact fun l hl _ => List.all_eq_true.1 (List.all_eq_true.1 hall l hl)
  have hn : Denotes .primary [⟨⟨.numeral, ['2', '.', '5']⟩, 0⟩]
      (.number (.ofReal (ofDecimal ⟨25, -1⟩)) : Expr (Complex Double)) :=
    .number rfl (readNumber_eq_ok_iff.2 ⟨rfl, by decide +kernel⟩)
  have hy : Denotes .primary [⟨⟨.word, ['y']⟩, 4⟩]
      (.named "y" (some 4) : Expr (Complex Double)) :=
    .name (by decide +kernel) (by decide +kernel)
  let a : Expr (Complex Double) :=
    .binary .sub (.number (.ofReal (ofDecimal ⟨25, -1⟩))) (.named "y" (some 4)) (some 3)
  have hparse : parse "2.5-y" = .ok a := by
    refine parse_of_denotes ?_
    rw [hwritten]
    exact .summand (c := '-') rfl rfl (hn.widen (by decide)) (hy.widen (by decide))
  have hreal : ((0 : Double) == 0) = true := by decide +kernel
  obtain ⟨b, hb, -, hbeq⟩ := parse_text_of_reaches hparse hascii .refl ⟨⟨hnumber, hzero⟩, trivial⟩
  obtain ⟨b', hb', hvalue, -⟩ := parse_text_of_reaches hparse hascii (.differentiate .refl rfl)
    ⟨⟨hzero, hzero⟩, hzero, hzero⟩
  exact ⟨a, _, b, b', hparse, rfl, hb, hbeq rfl ⟨hreal, trivial⟩, hb', hvalue⟩

end Formulary
