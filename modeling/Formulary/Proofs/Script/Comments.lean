import Formulary.Proofs.Arithmetic.MinusLaws
import Formulary.Proofs.Expr.Reached
import Formulary.Proofs.Script.Pieces

/-!
# Comment marks in Lua text

Two minus signs in a row begin a comment in Lua. A minus sign is written by a negation, a difference
and three of the functions, and a number without parentheses begins with one if it is a negative
zero. Nothing else brings two of them together.

* `HasComment s`: two minus signs stand next to each other in the text.
* `Expr.afterMinus?`: the operand that is written right after a minus sign.
* `Expr.NegatesMinusZero a`: somewhere in the tree that operand is a negative zero.
* `LuaMinus a s`: where the minus signs of the Lua expression `s` of `a` are.
* **`hasComment_lua_iff`**: expressions and chunks have a comment mark just if a negative zero stands
  after a minus sign.
* **`not_hasComment_of_reaches`**: trees that a text leads to have none.
-/

namespace Formulary

open RealArith

universe u

/-- Two minus signs stand next to each other. -/
def HasComment (s : String) : Prop :=
  ['-', '-'] <:+: s.toList

/-- The first character is a minus sign. -/
def BeginsWithMinus (s : String) : Prop :=
  s.toList.head? = some '-'

/-- The last character is a minus sign. -/
def EndsWithMinus (s : String) : Prop :=
  s.toList.getLast? = some '-'

instance : DecidablePred HasComment :=
  fun s => inferInstanceAs (Decidable (['-', '-'] <:+: s.toList))

instance : DecidablePred BeginsWithMinus :=
  fun s => inferInstanceAs (Decidable (s.toList.head? = some '-'))

instance : DecidablePred EndsWithMinus :=
  fun s => inferInstanceAs (Decidable (s.toList.getLast? = some '-'))

/-! ### Texts put together -/

section

variable {s t : String}

theorem beginsWithMinus_append :
    BeginsWithMinus (s ++ t) ↔ BeginsWithMinus s ∨ s = "" ∧ BeginsWithMinus t := by
  unfold BeginsWithMinus
  rw [String.toList_append, List.head?_append, ← String.toList_eq_nil_iff]
  cases s.toList <;> simp

theorem endsWithMinus_append :
    EndsWithMinus (s ++ t) ↔ EndsWithMinus t ∨ t = "" ∧ EndsWithMinus s := by
  unfold EndsWithMinus
  rw [String.toList_append, List.getLast?_append, ← String.toList_eq_nil_iff]
  cases h : t.toList.getLast? with
  | none => simp [List.getLast?_eq_none_iff.1 h]
  | some c =>
    have hne : t.toList ≠ [] := fun hnil => by simp [hnil] at h
    simp [hne]

/-- Two texts have a comment mark between them just if one ends and the other begins with a minus
sign. -/
theorem hasComment_append : HasComment (s ++ t) ↔
    HasComment s ∨ HasComment t ∨ EndsWithMinus s ∧ BeginsWithMinus t := by
  unfold HasComment EndsWithMinus BeginsWithMinus
  rw [String.toList_append, List.infix_append_iff]
  constructor
  · rintro (hs | ht | ⟨l, r, hlr, hl, hr⟩)
    · exact .inl hs
    · exact .inr (.inl ht)
    · -- The mark lies in one of the texts unless each has one of its characters.
      match l, r, hlr with
      | [], _, rfl => exact .inr (.inl hr.isInfix)
      | [_], [_], rfl =>
        obtain ⟨u, hu⟩ := hl
        obtain ⟨v, hv⟩ := hr
        exact .inr (.inr ⟨by rw [← hu, List.getLast?_concat], by rw [← hv]; rfl⟩)
      | [_, _], [], rfl => exact .inl hl.isInfix
  · rintro (hs | ht | ⟨hs, ht⟩)
    · exact .inl hs
    · exact .inr (.inl ht)
    · refine .inr (.inr ⟨['-'], ['-'], rfl, ?_, ?_⟩)
      · obtain ⟨cs, hcs⟩ := List.getLast?_eq_some_iff.1 hs
        exact ⟨cs, hcs.symm⟩
      · obtain ⟨cs, hcs⟩ := List.head?_eq_some_iff.1 ht
        exact ⟨cs, hcs.symm⟩

/-- A text without minus signs. -/
theorem not_hasComment_of_not_mem (h : '-' ∉ s.toList) :
    ¬ HasComment s ∧ ¬ BeginsWithMinus s ∧ ¬ EndsWithMinus s :=
  ⟨fun hs => h (hs.subset List.mem_cons_self), fun hs => h (List.mem_of_head? hs),
    fun hs => h (List.mem_of_getLast? hs)⟩

/-- A text with a minus sign only at its front. -/
theorem not_hasComment_of_not_mem_tail (h : '-' ∉ s.toList.tail) : ¬ HasComment s := by
  unfold HasComment
  cases hs : s.toList with
  | nil => simp
  | cons c cs =>
    rw [hs] at h
    rw [List.infix_cons_iff, List.cons_prefix_cons]
    rintro (⟨-, hcs⟩ | hcs)
    · exact h (hcs.subset List.mem_cons_self)
    · exact h (hcs.subset List.mem_cons_self)

/-- Parentheses hide the minus signs of a text from what stands around it. -/
theorem not_beginsWithMinus_parenthesized : ¬ BeginsWithMinus (parenthesized s) := by
  unfold parenthesized
  rw [String.append_assoc, beginsWithMinus_append]
  rintro (h | ⟨h, -⟩)
  · exact absurd h (by decide)
  · exact absurd h (by decide)

theorem not_endsWithMinus_parenthesized : ¬ EndsWithMinus (parenthesized s) := by
  unfold parenthesized
  rw [endsWithMinus_append]
  rintro (h | ⟨h, -⟩)
  · exact absurd h (by decide)
  · exact absurd h (by decide)

theorem hasComment_parenthesized : HasComment (parenthesized s) ↔ HasComment s := by
  have hopen : ¬ HasComment "(" ∧ ¬ EndsWithMinus "(" := by decide
  have hclose : ¬ HasComment ")" ∧ ¬ BeginsWithMinus ")" := by decide
  unfold parenthesized
  rw [hasComment_append, hasComment_append]
  simp only [hopen, hclose, false_or, false_and, and_false, or_false]

end

/-! ### Texts between pieces -/

/-- A piece of an expression that has no comment mark and makes none with a text before it. -/
def IsSafePiece (p : String) : Prop :=
  p ≠ "" ∧ ¬ BeginsWithMinus p ∧ ¬ HasComment p

instance : DecidablePred IsSafePiece :=
  fun p => inferInstanceAs (Decidable (p ≠ "" ∧ ¬ BeginsWithMinus p ∧ ¬ HasComment p))

section

variable {a p : String} {ps : List String}

theorem not_beginsWithMinus_intercalate (hp : IsSafePiece p) :
    ¬ BeginsWithMinus (a.intercalate (p :: ps)) := by
  cases ps with
  | nil =>
    rw [String.intercalate_singleton]
    exact hp.2.1
  | cons q qs =>
    rw [String.intercalate_cons_cons, String.append_assoc, beginsWithMinus_append]
    rintro (h | ⟨h, -⟩)
    · exact hp.2.1 h
    · exact hp.1 h

/-- The last piece shows at the end. -/
theorem not_endsWithMinus_intercalate (hps : ∀ q ∈ p :: ps, IsSafePiece q)
    (hlast : ∀ q ∈ (p :: ps).getLast?, ¬ EndsWithMinus q) :
    ¬ EndsWithMinus (a.intercalate (p :: ps)) := by
  induction ps generalizing p with
  | nil =>
    rw [String.intercalate_singleton]
    exact hlast p rfl
  | cons q qs ih =>
    rw [String.intercalate_cons_cons, endsWithMinus_append]
    rintro (h | ⟨h, -⟩)
    · exact ih (fun r hr => hps r (List.mem_cons_of_mem _ hr)) hlast h
    · -- The rest is not empty, since it begins with a piece.
      have hq := (hps q (List.mem_cons_of_mem _ List.mem_cons_self)).1
      cases qs with
      | nil => exact hq (by rwa [String.intercalate_singleton] at h)
      | cons r rs =>
        rw [String.intercalate_cons_cons, String.append_assoc, String.append_eq_empty_iff] at h
        exact hq h.1

/-- Between safe pieces there is a comment mark just if the text has one, or begins with the minus
sign that a piece before it ends with. -/
theorem hasComment_intercalate (ha : ¬ EndsWithMinus a) (hps : ∀ q ∈ p :: ps, IsSafePiece q) :
    HasComment (a.intercalate (p :: ps)) ↔
      ps ≠ [] ∧ HasComment a ∨ BeginsWithMinus a ∧ ∃ q ∈ (p :: ps).dropLast, EndsWithMinus q := by
  induction ps generalizing p with
  | nil =>
    rw [String.intercalate_singleton]
    simp [(hps p List.mem_cons_self).2.2]
  | cons q qs ih =>
    have hp := hps p List.mem_cons_self
    have hqs : ∀ r ∈ q :: qs, IsSafePiece r := fun r hr => hps r (List.mem_cons_of_mem _ hr)
    have hbegin : ¬ BeginsWithMinus (a.intercalate (q :: qs)) :=
      not_beginsWithMinus_intercalate (hqs q List.mem_cons_self)
    rw [String.intercalate_cons_cons, String.append_assoc, hasComment_append, hasComment_append,
      beginsWithMinus_append, ih hqs, List.dropLast_cons_cons, List.exists_mem_cons_iff]
    simp only [hp.2.2, ha, hbegin, and_false, or_false, false_or, ne_eq, reduceCtorEq,
      not_false_eq_true, true_and]
    generalize (∃ r ∈ (q :: qs).dropLast, EndsWithMinus r) = between
    tauto

end

/-- The Lua expression of the function writes a minus sign right before its operand. -/
def Builtin.negatesOperand : Builtin → Bool
  | .sinh | .cosh | .arctanh => true
  | _ => false

/-- What the pieces of the functions do to the minus signs of an operand. -/
theorem luaPieces_minus {f : Builtin} {pieces : List String} (h : luaPieces? f = some pieces) :
    ∃ p q qs, pieces = p :: q :: qs ∧ (∀ r ∈ pieces, IsSafePiece r) ∧
      (∀ r ∈ pieces.getLast?, ¬ EndsWithMinus r) ∧
      ((∃ r ∈ pieces.dropLast, EndsWithMinus r) ↔ f.negatesOperand = true) := by
  cases f <;> cases h <;> exact ⟨_, _, _, rfl, by decide⟩

/-! ### Trees -/

namespace Expr

variable {K : Type u} {R : Type u} [RealArith R]

/-- The tree is a number whose real part is a zero with a minus sign. -/
def isMinusZero : Expr (Complex R) → Bool
  | number v => Formulary.isMinusZero v.re
  | _ => false

/-- The operand that the Lua expression has right after a minus sign. -/
def afterMinus? : Expr K → Option (Expr K)
  | neg a => some a
  | binary .sub _ b _ => some b
  | call f a _ => if f.negatesOperand then some a else none
  | _ => none

/-- Somewhere in the tree a negative zero comes right after a minus sign. -/
def NegatesMinusZero (a : Expr (Complex R)) : Prop :=
  ∃ t ∈ a.subtrees, ∃ b, t.afterMinus? = some b ∧ b.isMinusZero = true

variable {f : Builtin} {op : BinaryOp} {a b : Expr (Complex R)} {p : Position}

theorem mem_subtrees_of_afterMinus? {a b : Expr K} (h : a.afterMinus? = some b) :
    b ∈ a.subtrees := by
  cases a with
  | neg c =>
    cases h
    exact mem_subtrees_neg b
  | binary op c d p =>
    cases op with
    | sub =>
      cases h
      exact mem_subtrees_right ..
    | _ => cases h
  | call f c p =>
    simp only [afterMinus?] at h
    split at h
    · cases h
      exact mem_subtrees_call ..
    · cases h
  | _ => cases h

theorem negatesMinusZero_neg :
    (neg a).NegatesMinusZero ↔ a.isMinusZero = true ∨ a.NegatesMinusZero := by
  unfold NegatesMinusZero
  rw [subtrees, List.exists_mem_cons_iff]
  simp only [afterMinus?, Option.some.injEq, exists_eq_left']

theorem negatesMinusZero_binary : (binary op a b p).NegatesMinusZero ↔
    (op = .sub ∧ b.isMinusZero = true) ∨ a.NegatesMinusZero ∨ b.NegatesMinusZero := by
  unfold NegatesMinusZero
  rw [subtrees, List.exists_mem_cons_iff]
  refine or_congr ?_ (by simp only [List.mem_append, or_and_right, exists_or])
  cases op <;> simp [afterMinus?]

theorem negatesMinusZero_call : (call f a p).NegatesMinusZero ↔
    (f.negatesOperand = true ∧ a.isMinusZero = true) ∨ a.NegatesMinusZero := by
  unfold NegatesMinusZero
  rw [subtrees, List.exists_mem_cons_iff]
  refine or_congr_left ?_
  cases hf : f.negatesOperand <;> simp [afterMinus?, hf]

end Expr

variable {R : Type u} [RealArith R]

/-- Where the minus signs of the Lua expression of a tree are. -/
structure LuaMinus (a : Expr (Complex R)) (s : String) : Prop where
  begins : BeginsWithMinus s ↔ a.isMinusZero = true
  ends : ¬ EndsWithMinus s
  comment : HasComment s ↔ a.NegatesMinusZero

/-- An expression in parentheses shows no minus sign. -/
theorem LuaMinus.parenthesized {a : Expr (Complex R)} {s : String} (ha : a.isMinusZero = false)
    (h : HasComment s ↔ a.NegatesMinusZero) : LuaMinus a (parenthesized s) where
  begins := by simp [not_beginsWithMinus_parenthesized, ha]
  ends := not_endsWithMinus_parenthesized
  comment := hasComment_parenthesized.trans h

variable [MinusLaws R]

/-- The numeral of a number begins with a minus sign just if the number is a negative zero. -/
theorem luaMinus_number {v : Complex R} {s : String} (h : luaNumber v = .ok s) :
    LuaMinus (.number v) s := by
  obtain ⟨hfin, -, rfl⟩ := luaNumber_eq_ok h
  have hcomment : HasComment (text v.re) ↔ (Expr.number v).NegatesMinusZero := by
    simp [not_hasComment_of_not_mem_tail (MinusLaws.minus_not_mem_tail v.re),
      Expr.NegatesMinusZero, Expr.subtrees, Expr.afterMinus?]
  have hzero : (Expr.number v).isMinusZero = isMinusZero v.re := rfl
  split
  · next hlt =>
    have hnot := SignLaws.lt_zero_and_beq_zero v.re
    rw [hlt, Bool.true_and] at hnot
    exact .parenthesized (by rw [hzero, isMinusZero, hnot, Bool.false_and]) hcomment
  · next hlt =>
    cases hminus : isMinusZero v.re with
    | true =>
      have htext := MinusLaws.text_of_isMinusZero v.re hminus
      refine ⟨?_, ?_, hcomment⟩
      · rw [hzero, hminus, htext]
        decide
      · rw [htext]
        decide
    | false =>
      have hplain := TextLaws.isPlainNumeral_text v.re (Complex.isFinite_iff.1 hfin).1
        (Bool.eq_false_iff.2 hlt) hminus
      obtain ⟨-, hbegins, hends⟩ :=
        not_hasComment_of_not_mem (minus_not_mem_of_isPlainNumeral hplain)
      exact ⟨by simp [hzero, hminus, hbegins], hends, hcomment⟩

/-- The minus signs of a Lua expression, operand by operand. -/
theorem luaMinus_of_lua {a : Expr (Complex R)} {s : String}
    (hnames : a.LeavesHold (Expr.namedLeaves fun n => '-' ∉ n.toList)) (h : a.lua = .ok s) :
    LuaMinus a s := by
  induction a generalizing s with
  | number v => exact luaMinus_number h
  | argument =>
    cases h
    have hx : ¬ HasComment argumentName ∧ ¬ BeginsWithMinus argumentName := by decide
    exact ⟨by simp [hx, Expr.isMinusZero], by decide,
      by simp [hx, Expr.NegatesMinusZero, Expr.subtrees, Expr.afterMinus?]⟩
  | named n p =>
    cases h
    obtain ⟨hcomment, hbegins, hends⟩ :=
      not_hasComment_of_not_mem hnames
    exact ⟨by simp [hbegins, Expr.isMinusZero], hends,
      by simp [hcomment, Expr.NegatesMinusZero, Expr.subtrees, Expr.afterMinus?]⟩
  | neg a ih =>
    obtain ⟨t, ht, rfl⟩ := Expr.exists_of_lua_neg h
    have ha := ih hnames ht
    refine .parenthesized rfl ?_
    have hminus : ¬ HasComment "-" ∧ EndsWithMinus "-" := by decide
    rw [hasComment_append, Expr.negatesMinusZero_neg, ha.comment, ha.begins]
    simp only [hminus, true_and, false_or]
    exact or_comm
  | binary op a b p iha ihb =>
    obtain ⟨t, r, ht, hr, rfl⟩ := Expr.exists_of_lua_binary h
    have ha := iha hnames.1 ht
    have hb := ihb hnames.2 hr
    have hsign : ¬ HasComment op.symbol ∧ op.symbol ≠ "" ∧ (EndsWithMinus op.symbol ↔ op = .sub) := by
      cases op <;> decide
    refine .parenthesized rfl ?_
    rw [hasComment_append, hasComment_append, endsWithMinus_append, Expr.negatesMinusZero_binary,
      ha.comment, hb.comment, hb.begins, hsign.2.2]
    simp only [hsign.1, hsign.2.1, ha.ends, false_and, or_false]
    tauto
  | call f a p ih =>
    obtain ⟨t, pieces, ht, hpieces, rfl⟩ := Expr.exists_of_lua_call h
    have ha := ih hnames.2 ht
    obtain ⟨q, q', qs, rfl, hsafe, hlast, hnegates⟩ := luaPieces_minus hpieces
    refine ⟨?_, not_endsWithMinus_intercalate hsafe hlast, ?_⟩
    · exact iff_of_false (not_beginsWithMinus_intercalate (hsafe q List.mem_cons_self))
        Bool.false_ne_true
    · rw [hasComment_intercalate ha.ends hsafe, hnegates, ha.comment, ha.begins,
        Expr.negatesMinusZero_call]
      simp only [ne_eq, reduceCtorEq, not_false_eq_true, true_and]
      tauto

/-! ### Chunks -/

/-- The lines that bind the variables have no comment mark. -/
theorem not_hasComment_luaLocals {vars : Vars (Complex R)} {names : List String} {s : String}
    (hnames : ∀ n ∈ names, '-' ∉ n.toList) (h : Expr.luaLocals vars names = .ok s) :
    ¬ HasComment s ∧ ¬ BeginsWithMinus s := by
  induction names generalizing s with
  | nil =>
    cases h
    decide
  | cons n names ih =>
    have ih {r} := ih (s := r) fun m hm => hnames m (List.mem_cons_of_mem _ hm)
    obtain ⟨hn, hbegins, hends⟩ := not_hasComment_of_not_mem (hnames n List.mem_cons_self)
    simp only [Expr.luaLocals] at h
    split at h
    · exact ih h
    · next v hv =>
      split at h
      · cases h
      · split at h
        · next lines hlines =>
          cases h
          obtain ⟨hcomment, hfirst⟩ := ih hlines
          have hlocal : ¬ HasComment "local " ∧ ¬ BeginsWithMinus "local " ∧ "local " ≠ "" ∧
              ¬ EndsWithMinus "local " := by decide
          have hequals : ¬ HasComment " = " ∧ ¬ BeginsWithMinus " = " ∧ ¬ EndsWithMinus " = " ∧
              " = " ≠ "" := by decide
          have hbreak : ¬ HasComment "\n" ∧ ¬ BeginsWithMinus "\n" ∧ ¬ EndsWithMinus "\n" ∧
              "\n" ≠ "" := by decide
          have htext := not_hasComment_of_not_mem_tail (MinusLaws.minus_not_mem_tail v.re)
          simp [hasComment_append, beginsWithMinus_append, endsWithMinus_append, hlocal, hequals,
            hbreak, hn, hends, hbegins, hcomment, hfirst, htext]
        · cases h

/-- A chunk has a comment mark just if the expression in it has one. -/
theorem hasComment_luaChunk {a : Expr (Complex R)} {vars : Vars (Complex R)} {s : String}
    (hnames : ∀ n ∈ a.variableNames, '-' ∉ n.toList) (h : a.luaChunk vars = .ok s) :
    ∃ body, a.lua = .ok body ∧ (HasComment s ↔ HasComment body) := by
  unfold Expr.luaChunk at h
  split at h
  · cases h
  · next body hbody =>
    split at h
    · cases h
    · next lines hlines =>
      cases h
      obtain ⟨hcomment, hfirst⟩ := not_hasComment_luaLocals hnames hlines
      have hreturn : ¬ HasComment "return function(x) return " ∧
          ¬ BeginsWithMinus "return function(x) return " ∧
          ¬ EndsWithMinus "return function(x) return " ∧ "return function(x) return " ≠ "" := by
        decide
      have hend : ¬ HasComment " end\n" ∧ ¬ BeginsWithMinus " end\n" := by decide
      refine ⟨body, hbody, ?_⟩
      simp [hasComment_append, endsWithMinus_append, hcomment, hreturn, hend]

/-! ### Comment marks -/

/-- What the expression and every chunk of a tree have. -/
theorem hasComment_iff_of_lua {a : Expr (Complex R)} {s : String}
    (hnames : ∀ n ∈ a.variableNames, '-' ∉ n.toList)
    (h : a.lua = .ok s ∨ ∃ vars, a.luaChunk vars = .ok s) :
    HasComment s ↔ a.NegatesMinusZero := by
  have hleaves := Expr.leavesHold_namedLeaves hnames
  obtain h | ⟨vars, h⟩ := h
  · exact (luaMinus_of_lua hleaves h).comment
  · obtain ⟨body, hbody, hiff⟩ := hasComment_luaChunk hnames h
    exact hiff.trans (luaMinus_of_lua hleaves hbody).comment

/-- A negative zero comes only from trees that are built by hand: the Lua text of a tree that a text
leads to has no comment mark. -/
theorem not_hasComment_of_reaches {r s : String} {a b : Expr (Complex R)}
    (hparse : parse r = .ok a) (hreach : a.Reaches b)
    (hnames : ∀ n ∈ b.variableNames, '-' ∉ n.toList)
    (h : b.lua = .ok s ∨ ∃ vars, b.luaChunk vars = .ok s) : ¬ HasComment s := by
  have ha : a.LeavesHold (derivedLeaves fun _ => True) :=
    derivedLeaves_of_parse hparse (fun _ _ _ _ => trivial) trivial
  have hb := derivedLeaves_of_reaches hreach ha
  rw [hasComment_iff_of_lua hnames h]
  rintro ⟨t, ht, c, hc, hzero⟩
  cases c with
  | number v =>
    have hv := hb.of_mem (Expr.subtrees_subset ht (Expr.mem_subtrees_of_afterMinus? hc))
    have hnot := (Complex.noMinusZero_iff.1 hv.2).1
    exact absurd (hnot.symm.trans hzero) Bool.false_ne_true
  | _ => exact absurd hzero Bool.false_ne_true

/-- Whatever the literals are, hand-built ones included: a Lua expression, and a chunk over any
table, has two minus signs in a row just if a negative zero comes right after a minus sign in the
tree. -/
theorem hasComment_lua_iff {a : Expr (Complex R)} {s : String}
    (hnames : ∀ n ∈ a.variableNames, '-' ∉ n.toList)
    (h : a.lua = .ok s ∨ ∃ vars, a.luaChunk vars = .ok s) :
    HasComment s ↔ a.NegatesMinusZero :=
  hasComment_iff_of_lua hnames h

/-- Machine numbers have the laws: there is no comment mark in the expression of `x - 2`. -/
theorem hasComment_lua_iff_difference :
    ∃ (a : Expr (Complex Double)) (s : String), a.lua = .ok s ∧
      (∀ n ∈ a.variableNames, '-' ∉ n.toList) ∧ (HasComment s ↔ a.NegatesMinusZero) := by
  have hlua : (Expr.minus .argument (.nat 2) : Expr (Complex Double)).lua = .ok "(x-2)" := by
    decide +kernel
  have hnames : ∀ n ∈ (Expr.minus .argument (.nat 2) : Expr (Complex Double)).variableNames,
      '-' ∉ n.toList := by
    decide
  exact ⟨_, _, hlua, hnames, hasComment_lua_iff hnames (.inl hlua)⟩

/-- The negative zero after a minus sign: what stands behind it in the line is lost. -/
theorem hasComment_lua_minusZero :
    ∃ (a : Expr (Complex Double)) (s : String), a.lua = .ok s ∧ a.variableNames = [] ∧
      HasComment s := by
  refine ⟨.minus .argument (.number ⟨-0, 0⟩), "(x--0)", by decide +kernel, rfl, by decide⟩

end Formulary
