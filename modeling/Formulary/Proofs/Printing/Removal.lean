import Formulary.Proofs.Printing.Turns

/-!
# No pair of parentheses can be left out

The text of a formula has no pair of parentheses to spare: without any one pair that groups, the
text is read as a different formula. What is left still takes turns, so it is derived from the
grammar, but it has one group less than the formula needs.

* `exists_cut`: a text of lexemes is cut between lexemes at every sign.
* `turns_of_pair`, `groups_of_pair`: what is left without a pair takes turns and has one group
  less.
* `exists_parse_of_turns`: it is parsed. `beq_of_groups_lt`: as a different tree.
* **`parse_text_without_pair`**: the statement for every formula that is read from a text without
  the dotted capital `İ`.
* `parse_text_without_pair_dotted`: with this letter, what is left may be no formula.
-/

namespace Formulary

open RealArith

universe u

variable {R : Type u} [RealArith R]

/-! ### Lexemes around a pair -/

/-- A text of plain lexemes is cut at a sign between lexemes. -/
theorem exists_cut {ls : List Lexeme} {u s : List Char} {c : Char}
    (hplain : ∀ l ∈ ls, l.IsPlain) (hc : (Operator.ofChar? c).isSome = true)
    (h : ls.flatMap Lexeme.chars = u ++ c :: s) :
    ∃ us ss, ls = us ++ ⟨.sign, [c]⟩ :: ss ∧ us.flatMap Lexeme.chars = u ∧
      ss.flatMap Lexeme.chars = s := by
  induction ls generalizing u with
  | nil => exact absurd h.symm (List.append_ne_nil_of_right_ne_nil u (List.cons_ne_nil c s))
  | cons l ls ih =>
    have hrest := fun u h => ih (u := u) (fun l hl => hplain l (List.mem_cons_of_mem _ hl)) h
    have hfirst := hplain l List.mem_cons_self
    -- the cut is after the first lexeme
    have hafter {u' : List Char} (hu : u = l.chars ++ u')
        (h : ls.flatMap Lexeme.chars = u' ++ c :: s) :
        ∃ us ss, l :: ls = us ++ ⟨.sign, [c]⟩ :: ss ∧ us.flatMap Lexeme.chars = u ∧
          ss.flatMap Lexeme.chars = s := by
      obtain ⟨us, ss, rfl, rfl, hs⟩ := hrest u' h
      exact ⟨l :: us, ss, rfl, hu.symm, hs⟩
    rw [List.flatMap_cons] at h
    obtain ⟨u', hu, hls⟩ | ⟨cs, hl, hcs⟩ := List.append_eq_append_iff.1 h
    · exact hafter hu hls
    · cases cs with
      | nil =>
        rw [List.append_nil] at hl
        exact hafter (hl.symm.trans (List.append_nil _).symm) hcs.symm
      | cons d cs =>
        obtain ⟨rfl, hs⟩ := List.cons.inj hcs
        have hmem : c ∈ l.chars := hl ▸ List.mem_append_right _ List.mem_cons_self
        by_cases hcls : l.cls = .sign
        · -- the cut is at the first lexeme
          cases hfirst with
          | @sign e he =>
            obtain rfl : c = e := List.mem_singleton.1 hmem
            obtain ⟨rfl, rfl⟩ : u = [] ∧ cs = [] := by
              have hlength : 1 = (u ++ c :: cs).length := congrArg List.length hl
              rw [List.length_append, List.length_cons] at hlength
              exact ⟨List.eq_nil_of_length_eq_zero (by omega),
                List.eq_nil_of_length_eq_zero (by omega)⟩
            exact ⟨[], ls, rfl, rfl, hs.symm⟩
          | _ => cases hcls
        · rw [ofChar?_of_isPlain hfirst hcls hmem] at hc
          cases hc

/-- After a function a parenthesis comes, and after nothing else. -/
theorem function?_of_after {t t' : Turn} {l : Lexeme} (h : t.after l = some t') :
    l.function?.isSome = (t' == .parenthesis) := by
  cases t with
  | operand =>
    rw [Turn.after] at h
    split at h
    · next hor =>
      cases h
      rcases Bool.or_eq_true_iff.1 hor with hl | hl
      · rw [function?_of_isSign hl]
        rfl
      · rw [function?_of_isSign hl]
        rfl
    · split at h
      · cases h
      · split at h
        · next hf =>
          cases h
          exact hf
        · next hf =>
          cases h
          exact Bool.eq_false_iff.2 hf
  | parenthesis =>
    obtain ⟨hl, ht⟩ := Option.ite_none_right_eq_some.1 h
    cases ht
    rw [function?_of_isSign hl]
    rfl
  | operator =>
    obtain ⟨c, hl, -⟩ := isSign_of_after (by decide) h
    rw [function?_of_isSign hl]
    rw [Turn.after] at h
    split at h
    · cases h
      rfl
    · obtain ⟨-, ht⟩ := Option.ite_none_right_eq_some.1 h
      cases ht
      rfl

theorem endsCalled_of_turns {t t' : Turn} {ls : List Lexeme} (h : turns t ls = some t') :
    endsCalled (t == .parenthesis) ls = (t' == .parenthesis) := by
  induction ls generalizing t with
  | nil =>
    cases h
    rfl
  | cons l ls ih =>
    obtain ⟨t₁, hl, hls⟩ := Option.bind_eq_some_iff.1 h
    rw [endsCalled, function?_of_after hl]
    exact ih hls

/-- A function stands last where a parenthesis has to come. -/
theorem exists_function_of_turns {ls : List Lexeme} (h : turns .operand ls = some .parenthesis) :
    ∃ ls' l f, ls = ls' ++ [l] ∧ l.function? = some f := by
  obtain rfl | ⟨ls', l, rfl⟩ := List.eq_nil_or_concat ls
  · cases h
  · rw [List.concat_eq_append, turns_append] at h
    obtain ⟨t, -, hlast⟩ := Option.bind_eq_some_iff.1 h
    obtain ⟨t', hl, ht⟩ := Option.bind_eq_some_iff.1 hlast
    cases ht
    obtain ⟨f, hf⟩ := Option.isSome_iff_exists.1 (function?_of_after hl)
    exact ⟨ls', l, f, List.concat_eq_append, hf⟩

/-- Lexemes around and in a pair of parentheses. -/
abbrev aroundPair (us vs ws : List Lexeme) : List Lexeme :=
  us ++ ⟨.sign, ['(']⟩ :: (vs ++ ⟨.sign, [')']⟩ :: ws)

/-- A pair of parentheses in a text is one of its lexemes. -/
theorem exists_pair {ls : List Lexeme} {u v w : List Char} (hplain : ∀ l ∈ ls, l.IsPlain)
    (h : ls.flatMap Lexeme.chars = u ++ '(' :: (v ++ ')' :: w)) :
    ∃ us vs ws, ls = aroundPair us vs ws ∧ us.flatMap Lexeme.chars = u ∧
      vs.flatMap Lexeme.chars = v ∧ ws.flatMap Lexeme.chars = w := by
  obtain ⟨us, ss, rfl, hu, hss⟩ := exists_cut hplain rfl h
  obtain ⟨vs, ws, rfl, hv, hw⟩ := exists_cut
    (fun l hl => hplain l (List.mem_append_right _ (List.mem_cons_of_mem _ hl))) rfl hss
  exact ⟨us, vs, ws, rfl, hu, hv, hw⟩

/-- A parenthesis does not have to come where the text does not end with the name of a function. -/
theorem turns_ne_parenthesis {ls : List Lexeme} (hprinted : ∀ l ∈ ls, l.IsPrinted R)
    (h : ∀ f : Builtin, ¬ f.name.toList <:+ ls.flatMap Lexeme.chars) :
    turns .operand ls ≠ some .parenthesis := by
  intro hcalled
  obtain ⟨ls', l, f, rfl, hf⟩ := exists_function_of_turns hcalled
  refine h f ⟨ls'.flatMap Lexeme.chars, ?_⟩
  rw [List.flatMap_append, List.flatMap_singleton,
    ((hprinted l (List.mem_append_right _ List.mem_cons_self)).function f hf).2]

/-- Around and in a pair that no function stands before, the lexemes take turns, and so does what is
left without the pair. -/
theorem turns_of_pair {us vs ws : List Lexeme}
    (h : turns .operand (aroundPair us vs ws) = some .operator)
    (hus : turns .operand us ≠ some .parenthesis) :
    turns .operand us = some .operand ∧ turns .operand vs = some .operator ∧
      turns .operand (us ++ vs ++ ws) = some .operator := by
  rw [turns_append] at h
  obtain ⟨t, ht, h⟩ := Option.bind_eq_some_iff.1 h
  rw [turns] at h
  obtain ⟨t₁, hopen, h⟩ := Option.bind_eq_some_iff.1 h
  rw [turns_append] at h
  obtain ⟨t₂, hvs, h⟩ := Option.bind_eq_some_iff.1 h
  rw [turns] at h
  obtain ⟨t₃, hclose, hws⟩ := Option.bind_eq_some_iff.1 h
  cases t with
  | operand =>
    cases hopen
    cases t₂ with
    | operator =>
      cases hclose
      refine ⟨ht, hvs, ?_⟩
      rw [List.append_assoc, turns_append, ht, Option.bind_some, turns_append, hvs]
      exact hws
    | _ => cases hclose
  | parenthesis => exact absurd ht hus
  | operator => cases hopen

/-- Without the pair there is one group less. -/
theorem groups_of_pair {us vs ws : List Lexeme} (hus : turns .operand us = some .operand)
    (hvs : turns .operand vs = some .operator) :
    groups false (aroundPair us vs ws) = groups false (us ++ vs ++ ws) + 1 := by
  have hus : endsCalled false us = false := endsCalled_of_turns hus
  have hvs : endsCalled false vs = false := endsCalled_of_turns hvs
  rw [groups_append, groups_open rfl, hus, if_neg Bool.false_ne_true, groups_append,
    groups_sign (c := ')') rfl (by decide), List.append_assoc, groups_append, hus, groups_append,
    hvs]
  omega

/-! ### Reading what is left -/

/-- Plain lexemes are read with their places. -/
theorem map_lexeme_placed {ls : List Lexeme} (h : ∀ l ∈ ls, l.IsPlain) (pos : Nat) :
    (placed pos ls).map Placed.lexeme = ls := by
  induction ls generalizing pos with
  | nil => rfl
  | cons l ls ih =>
    rw [placed_cons pos ls (not_isBlank_of_isPlain (h l List.mem_cons_self)), List.map_cons,
      ih fun l hl => h l (List.mem_cons_of_mem _ hl)]

/-- Lexemes that take turns are what is read in their text. -/
theorem written_of_turns {ls : List Lexeme} {t : Turn} (h : turns .operand ls = some t)
    (hprinted : ∀ l ∈ ls, l.IsPrinted R) :
    written (String.ofList (ls.flatMap Lexeme.chars)) = placed 0 ls := by
  have hread := (readsBack_of_turns h fun l hl => (hprinted l hl).isPlain).lexemes_eq
  unfold written
  rw [String.toList_ofList, hread, fuse_eq_self fun l hl => (hprinted l hl).not_isImaginary]

/-- Printed lexemes that take turns with balanced parentheses are parsed. -/
theorem exists_parse_of_turns {ls : List Lexeme} (h : turns .operand ls = some .operator)
    (hprinted : ∀ l ∈ ls, l.IsPrinted R) (hbalanced : IsBalanced (ls.flatMap Lexeme.chars)) :
    ∃ b : Expr (Complex R), Denotes .expr (placed 0 ls) b ∧
      parse (String.ofList (ls.flatMap Lexeme.chars)) = .ok b := by
  obtain ⟨b, hb⟩ := denotes_of_alternates (alternates_of_turns hprinted h hbalanced 0)
  exact ⟨b, hb, parse_of_denotes (written_of_turns h hprinted ▸ hb)⟩

theorem plusLeaves_of_denotes [ZeroLaws R] {φ : Phrase} {ls : List Placed} {a : Expr (Complex R)}
    (h : Denotes φ ls a) : a.LeavesHold plusLeaves :=
  leavesHold_of_denotes h (fun _ _ _ hv => isMinusNumber_of_readNumber hv)
    (fun _ _ _ _ => trivial) trivial fun _ _ _ => trivial

/-- Fewer groups are not enough for the same tree. -/
theorem beq_of_groups_lt [ZeroLaws R] {ls : List Placed} {a b : Expr (Complex R)}
    (ha : a.LeavesHold plusLeaves) (hb : Denotes .expr ls b)
    (hexp : ∀ l ∈ ls, l.function? ≠ some .exp)
    (h : groups false (ls.map Placed.lexeme) < a.pairs) : (b == a) = false := by
  rw [Bool.eq_false_iff]
  intro heq
  have hpairs := pairs_of_beq (plusLeaves_of_denotes hb) ha heq
  have hle := (groupsEnough_of_denotes hb hexp).1
  omega

/-- A printed tree without one of its grouping pairs is read as a different tree. -/
theorem exists_parse_removed [TextLaws R] {a : Expr (Complex R)} {u v w : List Char}
    (h : a.LeavesHold plainReals) (hplus : a.LeavesHold plusLeaves)
    (htext : a.text.toList = u ++ '(' :: (v ++ ')' :: w)) (hv : IsBalanced v)
    (hu : ∀ f : Builtin, ¬ f.name.toList <:+ u) :
    ∃ b : Expr (Complex R), parse (String.ofList (u ++ v ++ w)) = .ok b ∧ (b == a) = false := by
  have hprinted : ∀ l ∈ a.printed, l.IsPrinted R := isPrinted_printed h
  have hturns := turns_printed h
  have hgroups := groups_printed h
  have hbalanced := isBalanced_printed h
  have hchars := (flatMap_chars_printed a).trans htext
  rw [hchars] at hbalanced
  -- the lexemes around and in the pair, and what is left without it
  obtain ⟨us, vs, ws, hls, rfl, rfl, rfl⟩ := exists_pair (fun l hl => (hprinted l hl).isPlain) hchars
  rw [hls] at hprinted hturns hgroups
  have hleft : ∀ l ∈ us ++ vs ++ ws, l.IsPrinted R := fun l hl => hprinted l (by
    simp only [List.mem_append, List.mem_cons] at hl ⊢
    tauto)
  have hcalled := turns_ne_parenthesis (fun l hl => hprinted l (List.mem_append_left _ hl)) hu
  obtain ⟨hus, hvs, hrest⟩ := turns_of_pair hturns hcalled
  have hspell : (us ++ vs ++ ws).flatMap Lexeme.chars =
      us.flatMap Lexeme.chars ++ vs.flatMap Lexeme.chars ++ ws.flatMap Lexeme.chars := by
    rw [List.flatMap_append, List.flatMap_append]
  obtain ⟨b, hb, hparse⟩ := exists_parse_of_turns hrest hleft
    (hspell ▸ nesting_removed hv hbalanced)
  refine ⟨b, hspell ▸ hparse, beq_of_groups_lt hplus hb (fun l hl hexp => ?_) ?_⟩
  · exact ((hleft l.lexeme (mem_placed hl).1).function .exp hexp).1 rfl
  · rw [map_lexeme_placed (fun l hl => (hleft l hl).isPlain), ← hgroups, groups_of_pair hus hvs]
    exact Nat.lt_succ_self _

/-! ### Formulas that were read -/

/-- The names of a text have no letters but those of the text. -/
theorem not_mem_chars_of_written {s : String} {c : Char} (h : c ∉ s.toList) {l : Placed}
    (hl : l ∈ written s) (hname : l.isName = true) : c ∉ l.lexeme.chars := by
  intro hc
  have hmem := List.mem_flatMap.2 ⟨l.lexeme, mem_lexemes_of_isName hl hname, hc⟩
  rw [flatMap_chars_lexemes] at hmem
  exact h hmem

/-- The leaves of a tree of real numbers that was read. -/
theorem plainReals_of_parse [ZeroLaws R] {s : String} {a : Expr (Complex R)}
    (hparse : parse s = .ok a) (hdot : 'İ' ∉ s.toList) (hreal : RealNumbers a) :
    a.LeavesHold plainReals :=
  have hsource := sourceLeaves_of_parse hparse fun _ => not_mem_chars_of_written hdot
  have hsign : a.LeavesHold ⟨fun v => (v.im == 0) = true ∧ lt v.re 0 = false, fun _ => True,
      fun _ => True⟩ :=
    hreal.both (unsignedLeaves_of_parse hparse) (fun _ h h' => ⟨h, h'⟩) (fun _ _ _ => trivial)
      fun _ _ _ => trivial
  hsource.both hsign (fun _ h h' => ⟨h.1, h.2, h'⟩) (fun _ h _ => h) fun _ h _ => h

/-- The text of a formula of real numbers that is read from a text without the dotted capital `İ`
has no pair of parentheses to spare. Without a pair that groups, which is one that no function
stands before, it is read as a different formula. -/
theorem parse_text_without_pair [TextLaws R] {s : String} {a : Expr (Complex R)}
    {u v w : List Char} (hparse : parse s = .ok a) (hdot : 'İ' ∉ s.toList) (hreal : RealNumbers a)
    (htext : a.text.toList = u ++ '(' :: (v ++ ')' :: w)) (hv : IsBalanced v)
    (hu : ∀ f : Builtin, ¬ f.name.toList <:+ u) :
    ∃ b : Expr (Complex R), parse (String.ofList (u ++ v ++ w)) = .ok b ∧ (b == a) = false :=
  exists_parse_removed (plainReals_of_parse hparse hdot hreal)
    (plusLeaves_of_denotes (denotes_of_parse hparse)) htext hv hu

/-- A sum in parentheses times two; the plus sign is at the place `p`. -/
def sumTimesTwo (l : Lexeme) (p : Nat) : List Placed :=
  [⟨⟨.sign, ['(']⟩, 0⟩, ⟨l, 1⟩, ⟨⟨.sign, ['+']⟩, p⟩, ⟨⟨.numeral, ['1']⟩, p + 1⟩,
    ⟨⟨.sign, [')']⟩, p + 2⟩, ⟨⟨.sign, ['*']⟩, p + 3⟩, ⟨⟨.numeral, ['2']⟩, p + 4⟩]

/-- The tree of a sum in parentheses times two. -/
def sumTimesTwoTree (a : Expr (Complex Double)) (p : Nat) : Expr (Complex Double) :=
  .binary .mul (.binary .add a (.number (.ofReal (ofDecimal ⟨1, 0⟩))) (some p))
    (.number (.ofReal (ofDecimal ⟨2, 0⟩))) (some (p + 3))

theorem parse_sumTimesTwo {s : String} {l : Lexeme} {p : Nat} {a : Expr (Complex Double)}
    (hs : written s = sumTimesTwo l p) (ha : Denotes .primary [⟨l, 1⟩] a) :
    parse s = .ok (sumTimesTwoTree a p) := by
  have hone : Denotes .primary [⟨⟨.numeral, ['1']⟩, p + 1⟩]
      (.number (.ofReal (ofDecimal ⟨1, 0⟩)) : Expr (Complex Double)) :=
    denotes_numeral rfl (by decide +kernel) _
  have htwo : Denotes .primary [⟨⟨.numeral, ['2']⟩, p + 4⟩]
      (.number (.ofReal (ofDecimal ⟨2, 0⟩)) : Expr (Complex Double)) :=
    denotes_numeral rfl (by decide +kernel) _
  have hsum := Denotes.summand (l := ⟨⟨.sign, ['+']⟩, p⟩) (c := '+') rfl rfl
    (ha.widen (by decide)) (hone.widen (by decide))
  have hgroup := Denotes.group (o := ⟨⟨.sign, ['(']⟩, 0⟩) (c := ⟨⟨.sign, [')']⟩, p + 2⟩) rfl rfl
    hsum
  refine parse_of_denotes ?_
  rw [hs]
  exact .ofTerm (.factor (l := ⟨⟨.sign, ['*']⟩, p + 3⟩) (c := '*') rfl rfl
    (hgroup.widen (by decide)) (htwo.widen (by decide)))

theorem realNumbers_sumTimesTwoTree {a : Expr (Complex Double)} (ha : RealNumbers a) (p : Nat) :
    RealNumbers (sumTimesTwoTree a p) :=
  have hzero : ((0 : Double) == 0) = true := by decide +kernel
  ⟨⟨ha, hzero⟩, hzero⟩

/-- Machine numbers have the laws: `(x+1)*2` is not `x+1*2`. -/
theorem parse_text_without_pair_product : ∃ a b : Expr (Complex Double),
    parse "(x+1)*2" = .ok a ∧ a.text.toList = [] ++ '(' :: (['x', '+', '1'] ++ ')' :: ['*', '2']) ∧
      parse "x+1*2" = .ok b ∧ (b == a) = false := by
  have hx : Denotes .primary [⟨⟨.word, ['x']⟩, 1⟩] (.argument : Expr (Complex Double)) :=
    .argument (by decide +kernel) (by decide +kernel)
  have hparse := parse_sumTimesTwo (s := "(x+1)*2") (p := 2) (by decide +kernel) hx
  have htext : (sumTimesTwoTree .argument 2).text.toList =
      [] ++ '(' :: (['x', '+', '1'] ++ ')' :: ['*', '2']) := by
    decide +kernel
  have hname (f : Builtin) : ¬ f.name.toList <:+ [] := by cases f <;> decide
  obtain ⟨b, hb, hne⟩ := parse_text_without_pair hparse (by decide)
    (realNumbers_sumTimesTwoTree (a := .argument) trivial 2) htext (by decide) hname
  exact ⟨_, b, hparse, htext, hb, hne⟩

/-- The text of `(İ+1)*2` has the lower case of its name in it, which is no name: without the
parentheses it is no formula. -/
theorem parse_text_without_pair_dotted : ∃ a : Expr (Complex Double),
    parse "(İ+1)*2" = .ok a ∧ RealNumbers a ∧
      a.text.toList = [] ++ '(' :: (['i', '\u0307', '+', '1'] ++ ')' :: ['*', '2']) ∧
      ∀ b : Expr (Complex Double), parse "i\u0307+1*2" ≠ .ok b := by
  have hdotted : Denotes .primary [⟨⟨.word, ['İ']⟩, 1⟩]
      (.named "i\u0307" (some 1) : Expr (Complex Double)) :=
    .name (by decide +kernel) (by decide +kernel)
  refine ⟨_, parse_sumTimesTwo (p := 3) (by decide +kernel) hdotted,
    realNumbers_sumTimesTwoTree (a := .named _ _) trivial 3, by decide +kernel, fun b hb => ?_⟩
  have hfails : (parse "i\u0307+1*2" : Except _ (Expr (Complex Double))).isOk = false := by
    decide +kernel
  rw [hb] at hfails
  cases hfails

end Formulary
