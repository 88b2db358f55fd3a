import Formulary.Binary64.Arith
import Formulary.Proofs.Grammar.Fusing
import Formulary.Proofs.Grammar.Rejects
import Formulary.Proofs.Parse.Parentheses

/-!
# Errors of characters and parentheses

The conversion collects the bad characters as it goes. The parentheses that wait are those that are
open, so it stops at the first parenthesis that was never opened, and at the end of the text it
reports the last one that was never closed.

* `badPlaces`, `badInputs`: where the bad characters are, and the errors they cause.
* `postOrderFrom_append`: the conversion of tokens among which no parenthesis lacks its partner
  before it.
* `postOrder_of_closed`, `postOrder_of_unclosed`: the two ways in which the conversion ends.
* `pairwise_badPlaces`: bad characters are found from left to right.
* **`parse_errors`**: the errors of every text.
-/

namespace Formulary

universe u

/-- The places of the bad characters. -/
def badPlaces (ts : List Token) : List Nat :=
  (ts.filter (·.kind == .unknown)).map (·.start)

/-- The errors that the bad characters cause. -/
def badInputs (ts : List Token) : List ParseError :=
  (badPlaces ts).map .badInput

/-- The error is looked for only where all characters and parentheses are right. -/
def ParseError.isLate : ParseError → Bool
  | .empty | .noOperands _ | .unparsed _ | .badNumber _ _ => true
  | .badInput _ | .mismatchedClose _ | .mismatchedOpen _ => false

theorem badPlaces_of_unknown {t : Token} (ts : List Token) (h : t.kind = .unknown) :
    badPlaces (t :: ts) = t.start :: badPlaces ts := by
  unfold badPlaces
  rw [List.filter_cons_of_pos (by rw [h]; rfl), List.map_cons]

theorem badPlaces_of_known {t : Token} (ts : List Token) (h : t.kind ≠ .unknown) :
    badPlaces (t :: ts) = badPlaces ts := by
  unfold badPlaces
  rw [List.filter_cons_of_neg (by rwa [beq_iff_eq])]

theorem Token.isOperator_iff {t : Token} {o : Operator} :
    t.isOperator o = true ↔ t.kind = .operator o :=
  beq_iff_eq

theorem Token.isOperator_of_unknown {t : Token} (h : t.kind = .unknown) (o : Operator) :
    t.isOperator o = false := by
  unfold Token.isOperator
  rw [h]
  rfl

/-! ### The conversion -/

variable {w : Waiting} {ts os : List Token}

/-- While every closing parenthesis has its partner, the parentheses that wait are the open ones. -/
theorem exists_place_of_opensAfter {t : Token} (h : opensAfter w.opens (t :: ts) = some os) :
    ∃ w', w.place t = .ok w' ∧ opensAfter w'.opens ts = some os := by
  cases hc : t.isOperator .closeParen with
  | true =>
    have hk := Token.isOperator_iff.1 hc
    rw [place_of_closeParen w hk]
    cases hw : w.opens with
    | nil =>
      rw [hw, opensAfter_unopened hc] at h
      cases h
    | cons o opens =>
      obtain ⟨w', hclose, hw'⟩ := close_of_opens_cons t.start hw
      rw [hw, opensAfter_close hc] at h
      exact ⟨w', hclose, hw' ▸ h⟩
  | false =>
    have hclose : t.kind ≠ .operator .closeParen := fun hk =>
      Bool.false_ne_true (hc.symm.trans (Token.isOperator_iff.2 hk))
    obtain ⟨w', hp⟩ := exists_place w hclose
    refine ⟨w', hp, ?_⟩
    cases ho : t.isOperator .openParen with
    | true =>
      rw [opens_place_open hp (Token.isOperator_iff.1 ho), ← opensAfter_open ho]
      exact h
    | false =>
      have hopen : t.kind ≠ .operator .openParen := fun hk =>
        Bool.false_ne_true (ho.symm.trans (Token.isOperator_iff.2 hk))
      rw [opens_place_other hp hopen hclose, ← opensAfter_other ho hc]
      exact h

/-- The conversion of tokens among which no parenthesis lacks its partner before it. -/
theorem postOrderFrom_append (h : opensAfter w.opens ts = some os) :
    ∃ w', w'.opens = os ∧ ∀ errors rest, postOrderFrom errors w (ts ++ rest)
      = postOrderFrom (errors ++ badInputs ts) w' rest := by
  induction ts generalizing w with
  | nil =>
    refine ⟨w, Option.some.inj h, fun errors rest => ?_⟩
    show postOrderFrom errors w rest = postOrderFrom (errors ++ []) w rest
    rw [List.append_nil]
  | cons t ts ih =>
    cases hk : t.kind == .unknown with
    | true =>
      have hknown := eq_of_beq hk
      rw [opensAfter_other (Token.isOperator_of_unknown hknown _)
        (Token.isOperator_of_unknown hknown _)] at h
      obtain ⟨w', hw', hpost⟩ := ih h
      refine ⟨w', hw', fun errors rest => ?_⟩
      rw [List.cons_append]
      simp only [postOrderFrom]
      rw [if_pos hk, hpost]
      unfold badInputs
      rw [badPlaces_of_unknown ts hknown, List.map_cons, List.append_assoc, List.singleton_append]
    | false =>
      obtain ⟨w₁, hp, hw₁⟩ := exists_place_of_opensAfter h
      obtain ⟨w', hw', hpost⟩ := ih hw₁
      refine ⟨w', hw', fun errors rest => ?_⟩
      rw [List.cons_append]
      simp only [postOrderFrom]
      rw [hk, if_neg Bool.false_ne_true, hp]
      show postOrderFrom errors w₁ (ts ++ rest) = _
      rw [hpost]
      unfold badInputs
      rw [badPlaces_of_known ts (by rwa [beq_eq_false_iff_ne] at hk)]

/-- The conversion stops at a parenthesis that was never opened. -/
theorem postOrder_of_closed {before after : List Token} {c : Token} (h : Balanced before)
    (hc : c.isOperator .closeParen = true) :
    postOrder (before ++ c :: after) = .error (badInputs before ++ [.mismatchedClose c.start]) := by
  obtain ⟨w, hw, hpost⟩ := postOrderFrom_append (w := .start) (h.opensAfter_eq _)
  have hk := Token.isOperator_iff.1 hc
  unfold postOrder
  rw [hpost]
  simp only [postOrderFrom]
  rw [if_neg (by rw [hk]; exact Bool.false_ne_true), place_of_closeParen w hk,
    close_of_opens_nil _ hw]
  rfl

/-- At the end of the text the last parenthesis left open is reported, and else the bad characters
are. -/
theorem postOrder_of_unclosed (h : Unclosed ts os) :
    (∀ o ∈ os.head?, postOrder ts = .error (badInputs ts ++ [.mismatchedOpen o.start])) ∧
    (os = [] → badInputs ts ≠ [] → postOrder ts = .error (badInputs ts)) ∧
    (os = [] → badInputs ts = [] → ∃ out, postOrder ts = .ok out) := by
  obtain ⟨w, hw, hpost⟩ := postOrderFrom_append (w := .start) (h.opensAfter_eq _)
  have hrun : postOrder ts = postOrderFrom (badInputs ts) w [] := by
    unfold postOrder
    rw [← List.append_nil ts, hpost, List.append_nil, List.nil_append]
  have hfind : w.stack.find? (·.isOperator .openParen) = os.head? := by
    rw [← List.head?_filter]
    change w.opens.head? = _
    rw [hw]
    exact congrArg List.head? (List.append_nil os)
  refine ⟨fun o ho => ?_, fun hos hbad => ?_, fun hos hbad => ?_⟩
  · rw [hrun]
    simp only [postOrderFrom, Waiting.finish, hfind, Option.mem_def.1 ho]
  · rw [hrun]
    simp only [postOrderFrom, Waiting.finish, hfind, hos, List.head?_nil]
    rw [if_neg (by rwa [List.isEmpty_iff])]
  · rw [hrun, hbad]
    simp only [postOrderFrom, Waiting.finish, hfind, hos, List.head?_nil]
    exact ⟨_, rfl⟩

/-- The conversion reports bad characters and parentheses, nothing else. -/
theorem not_isLate_of_postOrder {es : List ParseError} (h : postOrder ts = .error es)
    {e : ParseError} (he : e ∈ es) : e.isLate = false := by
  have hbad {us : List Token} (he : e ∈ badInputs us) : e.isLate = false := by
    obtain ⟨p, -, rfl⟩ := List.mem_map.1 he
    rfl
  rcases closed_or_unclosed ts with ⟨before, c, after, rfl, hc, hbefore⟩ | ⟨os, hos⟩
  · rw [postOrder_of_closed hbefore hc] at h
    cases h
    rcases List.mem_append.1 he with he | he
    · exact hbad he
    · rw [List.mem_singleton.1 he]
      rfl
  · obtain ⟨hopen, hchars, hok⟩ := postOrder_of_unclosed hos
    cases os with
    | cons o os =>
      rw [hopen o rfl] at h
      cases h
      rcases List.mem_append.1 he with he | he
      · exact hbad he
      · rw [List.mem_singleton.1 he]
        rfl
    | nil =>
      by_cases hnil : badInputs ts = []
      · obtain ⟨out, hout⟩ := hok rfl hnil
        rw [hout] at h
        cases h
      · rw [hchars rfl hnil] at h
        cases h
        exact hbad he

/-! ### Places -/

theorem chars_ne_nil_of_mem_fuse {opens : Bool} {ls : List Lexeme} (hls : ∀ l ∈ ls, l.chars ≠ [])
    {l : Lexeme} (h : l ∈ fuse opens ls) : l.chars ≠ [] := by
  fun_induction fuse opens ls with
  | case1 opens a p b ls hfuse ih =>
    rcases List.mem_cons.1 h with rfl | h
    · intro hnil
      rw [List.append_eq_nil_iff, List.append_eq_nil_iff] at hnil
      exact hls a List.mem_cons_self hnil.1.1
    · exact ih (fun l hl => hls l (by simp [hl])) h
  | case2 opens a p b ls hfuse ih =>
    rcases List.mem_cons.1 h with rfl | h
    · exact hls _ List.mem_cons_self
    · exact ih (fun l hl => hls l (List.mem_cons_of_mem _ hl)) h
  | case3 opens ls hne => exact hls l h

/-- Lexemes follow each other without overlap. -/
theorem pairwise_start_placed {ls : List Lexeme} (hls : ∀ l ∈ ls, l.chars ≠ []) (pos : Nat) :
    ((placed pos ls).map (·.start)).Pairwise (· < ·) := by
  induction ls generalizing pos with
  | nil => exact .nil
  | cons l ls ih =>
    have ih := ih (fun l hl => hls l (List.mem_cons_of_mem _ hl)) (pos + byteLength l.chars)
    cases hblank : l.cls == .blank with
    | true =>
      rw [placed_blank _ _ hblank]
      exact ih
    | false =>
      rw [placed_cons _ _ hblank, List.map_cons]
      refine List.pairwise_cons.2 ⟨fun q hq => ?_, ih⟩
      obtain ⟨l', hl', rfl⟩ := List.mem_map.1 hq
      have hpos := byteLength_pos (hls l List.mem_cons_self)
      have hle := le_start_of_mem_placed hl'
      show pos < l'.start
      omega

/-- A bad character is a lexeme of its own. -/
theorem badPlaces_tokensAfter (last : Option TokenKind) (ls : List Placed) :
    (badPlaces (tokensAfter last ls)).Sublist (ls.map (·.start)) := by
  induction ls generalizing last with
  | nil => exact .slnil
  | cons l ls ih =>
    have hown : (badPlaces (l.token last :: tokensAfter (some (l.lexeme.kind last)) ls)).Sublist
        ((l :: ls).map (·.start)) := by
      by_cases hk : (l.token last).kind = .unknown
      · rw [badPlaces_of_unknown _ hk]
        exact (ih _).cons_cons _
      · rw [badPlaces_of_known _ hk]
        exact (ih _).cons _
    simp only [tokensAfter]
    split
    · rw [badPlaces_of_known _ TokenKind.noConfusion]
      exact hown
    · exact hown

/-- Bad characters are found from left to right. -/
theorem pairwise_badPlaces (s : String) : (badPlaces (tokenize s)).Pairwise (· < ·) := by
  rw [tokenize_eq]
  refine (pairwise_start_placed (fun l hl => ?_) 0).sublist (badPlaces_tokensAfter none (written s))
  exact chars_ne_nil_of_mem_fuse (fun l hl => chars_ne_nil_of_mem_lexemes hl) hl

/-! ### The errors of a text -/

variable {R : Type u} [RealArith R]

theorem parse_of_postOrder {s : String} {es : List ParseError}
    (h : postOrder (tokenize s) = .error es) : parse (R := R) s = .error es := by
  unfold parse parseTokens
  rw [h]

theorem parse_of_postOrder_ok {s : String} {out : List Token}
    (h : postOrder (tokenize s) = .ok out) :
    parse (R := R) s = (ofPostOrder out).mapError fun e => [e] := by
  unfold parse parseTokens
  rw [h]

/-- Late errors are reported alone. -/
theorem eq_singleton_of_isLate {s : String} {es : List ParseError} (h : parse (R := R) s = .error es)
    {e : ParseError} (he : e ∈ es) (hlate : e.isLate = true) : es = [e] := by
  cases hpost : postOrder (tokenize s) with
  | error es' =>
    rw [parse_of_postOrder hpost] at h
    cases h
    rw [not_isLate_of_postOrder hpost he] at hlate
    cases hlate
  | ok out =>
    rw [parse_of_postOrder_ok hpost] at h
    cases htree : ofPostOrder (R := R) out with
    | ok a =>
      rw [htree] at h
      cases h
    | error e' =>
      rw [htree] at h
      cases h
      rw [List.mem_singleton.1 he]

/-- The errors of every text. The bad characters are reported from left to right: those before the
first parenthesis that was never opened, if there is one, and otherwise all, before the last
parenthesis that was never closed, if there is one. Without any of them the conversion succeeds, and
what can still fail is reported alone. -/
theorem parse_errors (s : String) :
    (badPlaces (tokenize s)).Pairwise (· < ·) ∧
    (HasUnopened (tokenize s) → ∃ before c, FirstUnopened (tokenize s) before c) ∧
    (∀ before c, FirstUnopened (tokenize s) before c →
      postOrder (tokenize s) = .error (badInputs before ++ [.mismatchedClose c.start]) ∧
      parse (R := R) s = .error (badInputs before ++ [.mismatchedClose c.start])) ∧
    (¬ HasUnopened (tokenize s) →
      (HasUnclosed (tokenize s) → ∃ o, LastUnclosed (tokenize s) o) ∧
      (∀ o, LastUnclosed (tokenize s) o →
        postOrder (tokenize s) = .error (badInputs (tokenize s) ++ [.mismatchedOpen o.start]) ∧
        parse (R := R) s = .error (badInputs (tokenize s) ++ [.mismatchedOpen o.start])) ∧
      (¬ HasUnclosed (tokenize s) → badInputs (tokenize s) ≠ [] →
        postOrder (tokenize s) = .error (badInputs (tokenize s)) ∧
        parse (R := R) s = .error (badInputs (tokenize s))) ∧
      (¬ HasUnclosed (tokenize s) → badInputs (tokenize s) = [] →
        ∃ out, postOrder (tokenize s) = .ok out)) ∧
    ∀ es, parse (R := R) s = .error es → ∀ e ∈ es, e.isLate = true → es = [e] := by
  refine ⟨pairwise_badPlaces s, exists_firstUnopened, fun before c h => ?_, fun hopened => ?_,
    fun es h e he => eq_singleton_of_isLate h he⟩
  · obtain ⟨after, hts⟩ := h.split
    have hpost : postOrder (before ++ c :: after) =
        .error (badInputs before ++ [.mismatchedClose c.start]) :=
      postOrder_of_closed h.balanced h.closes
    rw [← hts] at hpost
    exact ⟨hpost, parse_of_postOrder hpost⟩
  obtain ⟨os, hos⟩ := not_hasUnopened_iff.1 hopened
  obtain ⟨-, hchars, hok⟩ := postOrder_of_unclosed hos
  refine ⟨fun hunclosed => ?_, fun o ho => ?_, fun hclosed hbad => ?_, fun hclosed hbad => ?_⟩
  · cases os with
    | nil => exact absurd rfl ((hasUnclosed_iff hos).1 hunclosed)
    | cons o os => exact ⟨o, hos.lastUnclosed⟩
  · obtain ⟨os, hos⟩ := ho.exists_unclosed hopened
    have hpost := (postOrder_of_unclosed hos).1 o rfl
    exact ⟨hpost, parse_of_postOrder hpost⟩
  · have hnil : os = [] := by_contra fun hne => hclosed ((hasUnclosed_iff hos).2 hne)
    exact ⟨hchars hnil hbad, parse_of_postOrder (hchars hnil hbad)⟩
  · have hnil : os = [] := by_contra fun hne => hclosed ((hasUnclosed_iff hos).2 hne)
    exact hok hnil hbad

/-- What follows a parenthesis that was never opened is not looked at, and of two parentheses left
open the last one is reported. -/
theorem parse_errors_double :
    parse (R := Double) "$ (1)) @" = .error [.badInput 0, .mismatchedClose 5] ∧
    parse (R := Double) "(1*($" = .error [.badInput 4, .mismatchedOpen 3] ∧
    parse (R := Double) "1 $ 2 @" = .error [.badInput 2, .badInput 6] := by
  refine ⟨?_, ?_, ?_⟩
  · have htokens : tokenize "$ (1)) @" = [⟨.unknown, "$", 0, 1⟩, ⟨.operator .openParen, "(", 2, 3⟩,
        ⟨.number, "1", 3, 4⟩, ⟨.operator .closeParen, ")", 4, 5⟩,
        ⟨.operator .closeParen, ")", 5, 6⟩, ⟨.unknown, "@", 7, 8⟩] := by
      decide +kernel
    have hbefore : Balanced [⟨.unknown, "$", 0, 1⟩, ⟨.operator .openParen, "(", 2, 3⟩,
        ⟨.number, "1", 3, 4⟩, ⟨.operator .closeParen, ")", 4, 5⟩] :=
      .other rfl rfl (.group rfl (.single rfl rfl) rfl .nil)
    exact ((parse_errors "$ (1)) @").2.2.1 _ ⟨.operator .closeParen, ")", 5, 6⟩
      ⟨⟨_, htokens⟩, rfl, hbefore.not_opened, (Unclosed.balanced hbefore).not_hasUnopened⟩).2
  · have htokens : tokenize "(1*($" = [⟨.operator .openParen, "(", 0, 1⟩, ⟨.number, "1", 1, 2⟩,
        ⟨.operator .mul, "*", 2, 3⟩, ⟨.operator .openParen, "(", 3, 4⟩,
        ⟨.unknown, "$", 4, 5⟩] := by
      decide +kernel
    have hopens : Unclosed (tokenize "(1*($")
        [⟨.operator .openParen, "(", 3, 4⟩, ⟨.operator .openParen, "(", 0, 1⟩] := by
      rw [htokens]
      exact .opened (.opened (.balanced .nil) rfl (.other rfl rfl (.single rfl rfl))) rfl
        (.single rfl rfl)
    have herror := ((parse_errors (R := Double) "(1*($").2.2.2.1 hopens.not_hasUnopened).2.1 _
      hopens.lastUnclosed
    rw [htokens] at herror
    exact herror.2
  · have htokens : tokenize "1 $ 2 @" = [⟨.number, "1", 0, 1⟩, ⟨.unknown, "$", 2, 3⟩,
        ⟨.number, "2", 4, 5⟩, ⟨.unknown, "@", 6, 7⟩] := by
      decide +kernel
    have hbalanced : Balanced (tokenize "1 $ 2 @") := by
      rw [htokens]
      exact .other rfl rfl (.other rfl rfl (.other rfl rfl (.single rfl rfl)))
    have herror := ((parse_errors (R := Double) "1 $ 2 @").2.2.2.1
      (Unclosed.balanced hbalanced).not_hasUnopened).2.2.1 hbalanced.not_hasUnclosed
    rw [htokens] at herror
    exact (herror (List.cons_ne_nil _ _)).2

end Formulary
