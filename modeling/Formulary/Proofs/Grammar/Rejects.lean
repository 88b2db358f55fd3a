import Formulary.Proofs.Grammar.Descent
import Formulary.Proofs.Parse.Counting

/-!
# What is parsed is derived

The tokens of a text weigh at most one, and less if an operand is missing anywhere: before an
operator, before a closing parenthesis or at the end. What is put out for a tree weighs one, so
nothing is missing, and lexemes with nothing missing are derived.

* `Lexeme.IsTidy`: a sign is the sign of an operator. Lexemes of texts are tidy (`isTidy_lexemes`).
* `Role`: what a tidy lexeme can be to the grammar (`role_of_isTidy`).
* `Bounds`: the bounds on the weight, and that lexemes which reach them alternate (`bounds`).
* `denotes_of_parseTokens`: lexemes whose tokens are parsed are derived.
* **`parse_eq_ok_iff`**: a text is parsed as a tree if and only if the grammar derives it and the
  derivation denotes the tree.
-/

namespace Formulary

universe u

/-! ### Tidy lexemes -/

/-- A sign is one character, which stands for an operator. -/
def Lexeme.IsTidy (l : Lexeme) : Prop :=
  l.cls = .sign → ∃ c o, l.chars = [c] ∧ Operator.ofChar? c = some o

theorem isTidy_firstLexeme (c : Char) (s : List Char) : (firstLexeme c s).IsTidy := by
  unfold firstLexeme
  split
  · exact fun h => LexemeClass.noConfusion h
  · split
    · exact fun h => LexemeClass.noConfusion h
    · split
      · next h =>
        obtain ⟨o, ho⟩ := Option.isSome_iff_exists.1 h
        exact fun _ => ⟨c, o, rfl, ho⟩
      · split <;> exact fun h => LexemeClass.noConfusion h

theorem isTidy_lexemes {s : List Char} {l : Lexeme} (h : l ∈ lexemes s) : l.IsTidy := by
  fun_induction lexemes s with
  | case1 => cases h
  | case2 c s l' ih =>
    rcases List.mem_cons.1 h with rfl | h
    · exact isTidy_firstLexeme c s
    · exact ih h

/-- Fusing makes numerals only. -/
theorem mem_fuse {opens : Bool} {ls : List Lexeme} {l : Lexeme} (h : l ∈ fuse opens ls) :
    l.cls = .numeral ∨ l ∈ ls := by
  fun_induction fuse opens ls with
  | case1 opens a p b ls hfuse ih =>
    rcases List.mem_cons.1 h with rfl | h
    · exact .inl rfl
    · exact (ih h).imp_right fun h => by simp [h]
  | case2 opens a p b ls hfuse ih =>
    rcases List.mem_cons.1 h with rfl | h
    · exact .inr List.mem_cons_self
    · exact (ih h).imp_right (List.mem_cons_of_mem _)
  | case3 opens ls hne => exact .inr h

theorem mem_placed {pos : Nat} {ls : List Lexeme} {l : Placed} (h : l ∈ placed pos ls) :
    l.lexeme ∈ ls ∧ (l.lexeme.cls == .blank) = false := by
  induction ls generalizing pos with
  | nil => cases h
  | cons l' ls ih =>
    simp only [placed] at h
    split at h
    · exact (ih h).imp_left (List.mem_cons_of_mem _)
    · next hblank =>
      rcases List.mem_cons.1 h with rfl | h
      · exact ⟨List.mem_cons_self, Bool.not_eq_true _ ▸ hblank⟩
      · exact (ih h).imp_left (List.mem_cons_of_mem _)

/-! ### Roles -/

/-- What a lexeme is to the grammar. -/
inductive Role (l : Placed) : Prop where
  | number (h : l.isNumber = true)
  | name (h : l.isName = true)
  | function {f : Builtin} (h : l.function? = some f)
  | minus (h : l.isSign '-' = true)
  | operator {c : Char} {op : BinaryOp} (h : l.isSign c = true) (hc : c ∈ ['+', '*', '/', '^'])
    (hop : Operator.ofChar? c = some op.operator) (hsub : op ≠ .sub)
  | opened (h : l.isSign '(' = true)
  | closed (h : l.isSign ')' = true)

/-- Every tidy lexeme that is neither blank nor unknown has a role. -/
theorem role_of_isTidy {l : Placed} (h : l.lexeme.IsTidy) (hblank : (l.lexeme.cls == .blank) = false)
    {last : Option TokenKind} (hunknown : l.lexeme.kind last ≠ .unknown) : Role l := by
  cases hcls : l.lexeme.cls with
  | numeral => exact .number (by unfold Placed.isNumber; rw [hcls]; rfl)
  | word =>
    have hword : l.isWord = true := by unfold Placed.isWord; rw [hcls]; rfl
    cases hunit : l.text == "i" with
    | true => exact .number (by unfold Placed.isNumber; rw [hword, hunit, Bool.and_self, Bool.or_true])
    | false =>
      cases hf : l.function? with
      | none =>
        refine .name ?_
        unfold Placed.isName bne
        rw [hword, hunit, hf]
        rfl
      | some f => exact .function hf
  | blank =>
    rw [hcls] at hblank
    exact absurd hblank.symm Bool.false_ne_true
  | unknown =>
    refine absurd ?_ hunknown
    unfold Lexeme.kind
    rw [hcls]
  | sign =>
    obtain ⟨c, o, hchars, ho⟩ := h hcls
    have hl : l.isSign c = true := isSign_iff.2 ⟨hcls, hchars⟩
    unfold Operator.ofChar? at ho
    split at ho
    · exact .opened hl
    · exact .closed hl
    · exact .operator hl (by decide) (show _ = some BinaryOp.add.operator from rfl) (by decide)
    · exact .minus hl
    · exact .operator hl (by decide) (show _ = some BinaryOp.mul.operator from rfl) (by decide)
    · exact .operator hl (by decide) (show _ = some BinaryOp.div.operator from rfl) (by decide)
    · exact .operator hl (by decide) (show _ = some BinaryOp.pow.operator from rfl) (by decide)
    · cases ho

/-! ### Bounds on the weight -/

variable {R : Type u} [RealArith R]

/-- The lexemes are those of a text, and its numbers have values. -/
def Readable (R : Type u) [RealArith R] (ls : List Placed) : Prop :=
  ∀ l ∈ ls, l.lexeme.IsTidy ∧ (l.lexeme.cls == .blank) = false ∧
    (l.isNumber = true → ∃ v : Complex R, readNumber l.text l.start = .ok v)

/-- Where an operand is expected the tokens weigh at most one, and exactly one only if the lexemes
alternate. -/
def BoundExpecting (R : Type u) [RealArith R] (last : Option TokenKind) (d : Nat)
    (ls : List Placed) : Prop :=
  weigh (tokensAfter last ls) ≤ 1 ∧ (weigh (tokensAfter last ls) = 1 → Alternates R false d ls)

/-- After a value the tokens weigh at most zero, and exactly zero only if the lexemes alternate. -/
def BoundAfter (R : Type u) [RealArith R] (last : Option TokenKind) (d : Nat)
    (ls : List Placed) : Prop :=
  weigh (tokensAfter last ls) ≤ 0 ∧ (weigh (tokensAfter last ls) = 0 → Alternates R true d ls)

/-- Both bounds for the lexemes that a run goes over before it finishes. -/
def Bounds (R : Type u) [RealArith R] (ls : List Placed) : Prop :=
  ∀ last w w', Runs w (tokensAfter last ls) w' → w'.depth = 0 →
    (Expects last → BoundExpecting R last w.depth ls) ∧
    (∀ k, last = some k → k.endsValue = true → BoundAfter R last w.depth ls)

section Step

variable {ls : List Placed} {w w' : Waiting} {t : Token}

/-- After a number or a name. -/
theorem bound_value (ih : Bounds R ls) (hf : w'.depth = 0) (hk : t.kind.isValue = true)
    (hr : Runs w (t :: tokensAfter (some t.kind) ls) w') :
    t.weight + weigh (tokensAfter (some t.kind) ls) ≤ 1 ∧
      (t.weight + weigh (tokensAfter (some t.kind) ls) = 1 → Alternates R true w.depth ls) := by
  cases hr with
  | @cons _ w₁ _ _ _ _ hp hr =>
    have hend : t.kind.endsValue = true := by
      revert hk
      cases t.kind <;> first | exact fun h => h | exact fun h => absurd h Bool.false_ne_true
    have hdepth : w₁.depth = w.depth :=
      depth_place_other hp (fun h => by rw [h] at hk; cases hk) fun h => by rw [h] at hk; cases hk
    obtain ⟨hle, heq⟩ := (ih _ _ _ hr hf).2 _ rfl hend
    rw [Token.weight_of_value hk, ← hdepth]
    exact ⟨by omega, fun h => heq (by omega)⟩

/-- After a function or a negation. -/
theorem bound_prefix {o : Operator} (ih : Bounds R ls) (hf : w'.depth = 0)
    (hk : t.kind = .operator o) (hbinary : o.binary? = none) (hopen : o ≠ .openParen)
    (hclose : o ≠ .closeParen) (hr : Runs w (t :: tokensAfter (some t.kind) ls) w') :
    t.weight + weigh (tokensAfter (some t.kind) ls) ≤ 1 ∧
      (t.weight + weigh (tokensAfter (some t.kind) ls) = 1 → Alternates R false w.depth ls) := by
  cases hr with
  | @cons _ w₁ _ _ _ _ hp hr =>
    have hdepth : w₁.depth = w.depth :=
      depth_place_other hp (fun h => hopen (TokenKind.operator.inj (hk.symm.trans h)))
        fun h => hclose (TokenKind.operator.inj (hk.symm.trans h))
    have hweight : t.weight = 0 := by
      rw [Token.weight_of_operator hk, hbinary]
      rfl
    rw [hk] at hr ⊢
    obtain ⟨hle, heq⟩ := (ih _ _ _ hr hf).1 (expects_operator hclose)
    rw [hweight, ← hdepth]
    exact ⟨by omega, fun h => heq (by omega)⟩

/-- After an opening parenthesis. -/
theorem bound_open (ih : Bounds R ls) (hf : w'.depth = 0) (hk : t.kind = .operator .openParen)
    (hr : Runs w (t :: tokensAfter (some t.kind) ls) w') :
    t.weight + weigh (tokensAfter (some t.kind) ls) ≤ 1 ∧
      (t.weight + weigh (tokensAfter (some t.kind) ls) = 1 →
        Alternates R false (w.depth + 1) ls) := by
  cases hr with
  | @cons _ w₁ _ _ _ _ hp hr =>
    have hdepth := depth_place_open hp hk
    have hweight : t.weight = 0 := Token.weight_of_operator hk
    rw [hk] at hr ⊢
    obtain ⟨hle, heq⟩ := (ih _ _ _ hr hf).1 (expects_operator (by decide))
    rw [hweight, ← hdepth]
    exact ⟨by omega, fun h => heq (by omega)⟩

/-- After an operator between operands, written or implied. -/
theorem bound_binary {op : BinaryOp} (ih : Bounds R ls) (hf : w'.depth = 0)
    (hk : t.kind = .operator op.operator) (hr : Runs w (t :: tokensAfter (some t.kind) ls) w') :
    t.weight + weigh (tokensAfter (some t.kind) ls) ≤ 0 ∧
      (t.weight + weigh (tokensAfter (some t.kind) ls) = 0 → Alternates R false w.depth ls) := by
  cases hr with
  | @cons _ w₁ _ _ _ _ hp hr =>
    have hdepth : w₁.depth = w.depth :=
      depth_place_other hp (fun h => by rw [hk] at h; cases op <;> cases h)
        fun h => by rw [hk] at h; cases op <;> cases h
    have hweight : t.weight = -1 := by
      rw [Token.weight_of_operator hk, Operator.binary?_operator]
      rfl
    rw [hk] at hr ⊢
    obtain ⟨hle, heq⟩ := (ih _ _ _ hr hf).1 (expects_operator (by cases op <;> decide))
    rw [hweight, ← hdepth]
    exact ⟨by omega, fun h => heq (by omega)⟩

/-- After a closing parenthesis. -/
theorem bound_close (ih : Bounds R ls) (hf : w'.depth = 0) (hk : t.kind = .operator .closeParen)
    (hr : Runs w (t :: tokensAfter (some t.kind) ls) w') :
    t.weight + weigh (tokensAfter (some t.kind) ls) ≤ 0 ∧
      (t.weight + weigh (tokensAfter (some t.kind) ls) = 0 →
        ∃ d, w.depth = d + 1 ∧ Alternates R true d ls) := by
  cases hr with
  | @cons _ w₁ _ _ _ _ hp hr =>
    have hdepth := depth_place_close hp hk
    have hweight : t.weight = 0 := Token.weight_of_operator hk
    rw [hk] at hr ⊢
    obtain ⟨hle, heq⟩ := (ih _ _ _ hr hf).2 _ rfl rfl
    rw [hweight]
    exact ⟨by omega, fun h => ⟨w₁.depth, hdepth, heq (by omega)⟩⟩

variable {l : Placed} {last : Option TokenKind}

/-- The bound where an operand is expected, from the bounds after the first lexeme. -/
theorem bound_expecting (hrole : Role l)
    (hread : l.isNumber = true → ∃ v : Complex R, readNumber l.text l.start = .ok v)
    (ih : Bounds R ls) (hlast : Expects last) (hr : Runs w (tokensAfter last (l :: ls)) w')
    (hf : w'.depth = 0) : BoundExpecting R last w.depth (l :: ls) := by
  unfold BoundExpecting
  rw [tokensAfter_of_expects hlast] at hr ⊢
  show (l.token last).weight + _ ≤ 1 ∧ ((l.token last).weight + _ = 1 → _)
  cases hrole with
  | number h =>
    have hkind := kind_of_isNumber last h
    obtain ⟨v, hv⟩ := hread h
    obtain ⟨hle, heq⟩ := bound_value ih hf (t := l.token last) (congrArg TokenKind.isValue hkind) hr
    exact ⟨hle, fun h1 => .value (startsValue_of_isNumber h) (.number h hv) (heq h1)⟩
  | name h =>
    have hkind := kind_of_isName last h
    obtain ⟨hle, heq⟩ := bound_value ih hf (t := l.token last) (congrArg TokenKind.isValue hkind) hr
    refine ⟨hle, fun h1 => ?_⟩
    by_cases hx : l.text = argumentName
    · exact .value (startsValue_of_isName h) (.argument h hx) (heq h1)
    · exact .value (startsValue_of_isName h) (.name h hx) (heq h1)
  | function h =>
    obtain ⟨hle, heq⟩ := bound_prefix ih hf (t := l.token last) (kind_of_function? last h) rfl
      Operator.noConfusion Operator.noConfusion hr
    exact ⟨hle, fun h1 => .function h (heq h1)⟩
  | minus h =>
    have hkind := kind_of_minus last h
    rw [hlast.1, if_pos rfl] at hkind
    obtain ⟨hle, heq⟩ := bound_prefix ih hf (t := l.token last) hkind rfl Operator.noConfusion
      Operator.noConfusion hr
    exact ⟨hle, fun h1 => .minus h (heq h1)⟩
  | opened h =>
    obtain ⟨hle, heq⟩ := bound_open ih hf (t := l.token last)
      (kind_of_isSign last h rfl (by decide)) hr
    exact ⟨hle, fun h1 => .opened h (heq h1)⟩
  -- nothing stands before the operator or the parenthesis: the bound is not reached
  | @operator c op h hc hop hsub =>
    obtain ⟨hle, -⟩ := bound_binary ih hf (t := l.token last)
      (kind_of_isSign last h hop (by cases op <;> first | decide | exact absurd rfl hsub)) hr
    change (l.token last).weight + weigh (tokensAfter (some (l.lexeme.kind last)) ls) ≤ 0 at hle
    exact ⟨by omega, fun h1 => by omega⟩
  | closed h =>
    obtain ⟨hle, -⟩ := bound_close ih hf (t := l.token last)
      (kind_of_isSign last h rfl (by decide)) hr
    change (l.token last).weight + weigh (tokensAfter (some (l.lexeme.kind last)) ls) ≤ 0 at hle
    exact ⟨by omega, fun h1 => by omega⟩

/-- The bound after a value. A juxtaposed value is read after a multiplication sign, where an
operand is expected. -/
theorem bound_after {k : TokenKind} (hrole : Role l)
    (hread : l.isNumber = true → ∃ v : Complex R, readNumber l.text l.start = .ok v)
    (ih : Bounds R ls) (hk : k.endsValue = true) (hr : Runs w (tokensAfter (some k) (l :: ls)) w')
    (hf : w'.depth = 0) : BoundAfter R (some k) w.depth (l :: ls) := by
  unfold BoundAfter
  cases hstart : l.lexeme.startsValue with
  | true =>
    rw [tokensAfter_juxtaposed ls hk hstart] at hr ⊢
    cases hr with
    | @cons _ w₁ _ _ _ _ hp hr =>
      have hdepth : w₁.depth = w.depth :=
        depth_place_other hp (fun h => by cases h) fun h => by cases h
      obtain ⟨hle, heq⟩ := bound_expecting hrole hread ih (expects_operator (by decide)) hr hf
      rw [hdepth] at heq
      have hweight : (impliedProduct l.start).weight = -1 := rfl
      show (impliedProduct l.start).weight + _ ≤ 0 ∧ ((impliedProduct l.start).weight + _ = 0 → _)
      rw [hweight]
      exact ⟨by omega, fun h => (heq (by omega)).after⟩
  | false =>
    rw [tokensAfter_of_not_startsValue _ _ hstart] at hr ⊢
    show (l.token (some k)).weight + _ ≤ 0 ∧ ((l.token (some k)).weight + _ = 0 → _)
    have hvalue (h : l.lexeme.startsValue = true) : False := by
      rw [hstart] at h
      exact Bool.false_ne_true h
    cases hrole with
    | number h => exact absurd (startsValue_of_isNumber h) hvalue
    | name h => exact absurd (startsValue_of_isName h) hvalue
    | function h => exact absurd (startsValue_of_function? h) hvalue
    | opened h => exact absurd (startsValue_of_open h) hvalue
    | minus h =>
      have hkind : (l.token (some k)).kind = .operator BinaryOp.sub.operator := by
        have hminus := kind_of_minus (some k) h
        rw [minusNegates_of_endsValue hk] at hminus
        exact hminus
      obtain ⟨hle, heq⟩ := bound_binary ih hf hkind hr
      exact ⟨hle, fun h0 => .minus h (heq h0)⟩
    | @operator c op h hc hop hsub =>
      obtain ⟨hle, heq⟩ := bound_binary ih hf (t := l.token (some k))
        (kind_of_isSign _ h hop (by cases op <;> first | decide | exact absurd rfl hsub)) hr
      exact ⟨hle, fun h0 => .operator h hc (heq h0)⟩
    | closed h =>
      obtain ⟨hle, heq⟩ := bound_close ih hf (t := l.token (some k))
        (kind_of_isSign _ h rfl (by decide)) hr
      refine ⟨hle, fun h0 => ?_⟩
      obtain ⟨d, hd, halt⟩ := heq h0
      rw [hd]
      exact .closed h halt

end Step

/-- The bounds hold of all lexemes of a text. -/
theorem bounds {ls : List Placed} (hls : Readable R ls) : Bounds R ls := by
  induction ls with
  | nil =>
    intro last w w' hr hf
    cases hr
    have hzero : weigh (tokensAfter last []) = 0 := rfl
    unfold BoundExpecting BoundAfter
    rw [hf, hzero]
    exact ⟨fun _ => ⟨by omega, fun h => by omega⟩, fun _ _ _ => ⟨by omega, fun _ => .done⟩⟩
  | cons l ls ih =>
    intro last w w' hr hf
    obtain ⟨htidy, hblank, hread⟩ := hls l List.mem_cons_self
    have ih' := ih fun l' h => hls l' (List.mem_cons_of_mem _ h)
    have hknown : l.lexeme.kind last ≠ .unknown := by
      simp only [tokensAfter] at hr
      split at hr
      · cases hr with
        | cons _ _ hr =>
          cases hr with
          | cons hk _ _ => exact hk
      · cases hr with
        | cons hk _ _ => exact hk
    have hrole := role_of_isTidy htidy hblank hknown
    refine ⟨fun hlast => bound_expecting hrole hread ih' hlast hr hf, ?_⟩
    rintro k rfl hk
    exact bound_after hrole hread ih' hk hr hf

/-! ### Parsed texts -/

theorem token_mem_tokensAfter {l : Placed} {ls : List Placed} (h : l ∈ ls)
    (last : Option TokenKind) : ∃ last', l.token last' ∈ tokensAfter last ls := by
  induction ls generalizing last with
  | nil => cases h
  | cons l' ls ih =>
    simp only [tokensAfter]
    rcases List.mem_cons.1 h with rfl | h
    · refine ⟨last, ?_⟩
      split <;> simp
    · obtain ⟨last', hmem⟩ := ih h (some (l'.lexeme.kind last))
      refine ⟨last', ?_⟩
      split
      · exact List.mem_cons_of_mem _ (List.mem_cons_of_mem _ hmem)
      · exact List.mem_cons_of_mem _ hmem

/-- A token is a lexeme's or a multiplication that stands before one. -/
theorem exists_of_mem_tokensAfter {last : Option TokenKind} {ls : List Placed} {t : Token}
    (h : t ∈ tokensAfter last ls) :
    ∃ l ∈ ls, t = impliedProduct l.start ∨ ∃ last', t = l.token last' := by
  induction ls generalizing last with
  | nil => cases h
  | cons l ls ih =>
    have hown (h : t ∈ l.token last :: tokensAfter (some (l.lexeme.kind last)) ls) :
        ∃ l' ∈ l :: ls, t = impliedProduct l'.start ∨ ∃ last', t = l'.token last' := by
      rcases List.mem_cons.1 h with rfl | h
      · exact ⟨l, List.mem_cons_self, .inr ⟨last, rfl⟩⟩
      · obtain ⟨l', hl', ht⟩ := ih h
        exact ⟨l', List.mem_cons_of_mem _ hl', ht⟩
    simp only [tokensAfter] at h
    split at h
    · rcases List.mem_cons.1 h with rfl | h
      · exact ⟨l, List.mem_cons_self, .inl rfl⟩
      · exact hown h
    · exact hown h

theorem readNumber_of_spells {ts : List Token} {a : Expr (Complex R)} (h : Spells ts a) {t : Token}
    (ht : t ∈ ts) (hk : t.kind = .number) : ∃ v : Complex R, readNumber t.text t.start = .ok v := by
  induction h with
  | @number u v hu hv =>
    rw [List.mem_singleton.1 ht]
    exact ⟨v, hv⟩
  | @name u hu =>
    rw [List.mem_singleton.1 ht, hu] at hk
    cases hk
  | @apply u f us b hu hb ih =>
    rcases List.mem_cons.1 ht with rfl | ht
    · rw [hu] at hk
      cases hk
    · exact ih ht
  | @neg u us b hu hb ih =>
    rcases List.mem_cons.1 ht with rfl | ht
    · rw [hu] at hk
      cases hk
    · exact ih ht
  | @binary u op us vs b c hu hb hc ihb ihc =>
    rcases List.mem_cons.1 ht with rfl | ht
    · rw [hu] at hk
      cases hk
    · rcases List.mem_append.1 ht with ht | ht
      · exact ihb ht
      · exact ihc ht

/-- Lexemes whose tokens are parsed are derived. -/
theorem denotes_of_parseTokens {ls : List Placed} {a : Expr (Complex R)}
    (htidy : ∀ l ∈ ls, l.lexeme.IsTidy ∧ (l.lexeme.cls == .blank) = false)
    (h : parseTokens (tokensAfter none ls) = .ok a) : Denotes .expr ls a := by
  obtain ⟨out, hpost, hspell⟩ := parseTokens_eq_ok_iff.1 h
  obtain ⟨w, hr, hf⟩ := postOrder_eq_ok_iff.1 hpost
  obtain ⟨hout, hdepth⟩ := finish_eq_ok hf
  have hread : Readable R ls := by
    intro l hl
    refine ⟨(htidy l hl).1, (htidy l hl).2, fun hnum => ?_⟩
    obtain ⟨last, hmem⟩ := token_mem_tokensAfter hl none
    have hkind := kind_of_isNumber last hnum
    have hput : l.token last ∈ w.output :=
      mem_of_runs hr (.inr ⟨hmem, congrArg TokenKind.isValue hkind⟩)
    refine readNumber_of_spells hspell (t := l.token last) ?_ hkind
    rw [List.mem_reverse, hout]
    exact List.mem_append_left _ (List.mem_reverse.2 hput)
  have hweigh : weigh (tokensAfter none ls) = 1 := by
    rw [← weigh_of_runs hr hf, ← weigh_reverse]
    exact weigh_of_spells hspell
  obtain ⟨b, hb⟩ := denotes_of_alternates (((bounds hread _ _ _ hr hdepth).1 expects_none).2 hweigh)
  -- the derivation denotes the tree that was parsed
  rw [parseTokens_of_denotes hb] at h
  cases h
  exact hb

theorem tokenize_eq (s : String) : tokenize s = tokensAfter none (written s) :=
  (tokensAfter_placed _ _ _).symm

theorem isTidy_of_mem_written {s : String} {l : Placed} (h : l ∈ written s) :
    l.lexeme.IsTidy ∧ (l.lexeme.cls == .blank) = false := by
  obtain ⟨hmem, hblank⟩ := mem_placed h
  refine ⟨?_, hblank⟩
  rcases mem_fuse hmem with hcls | hmem
  · intro hsign
    rw [hcls] at hsign
    cases hsign
  · exact isTidy_lexemes hmem

/-- Fusing leaves the words of a text as they are. -/
theorem mem_lexemes_of_word {s : String} {l : Placed} (hl : l ∈ written s)
    (hcls : l.lexeme.cls = .word) : l.lexeme ∈ lexemes s.toList := by
  refine (mem_fuse (mem_placed hl).1).resolve_left fun hnumeral => ?_
  rw [hcls] at hnumeral
  cases hnumeral

/-- A text that is parsed is derived. -/
theorem denotes_of_parse {s : String} {a : Expr (Complex R)} (h : parse s = .ok a) :
    Denotes .expr (written s) a := by
  unfold parse at h
  rw [tokenize_eq] at h
  exact denotes_of_parseTokens (fun l hl => isTidy_of_mem_written hl) h

/-- A text that is derived is parsed. -/
theorem parse_of_denotes {s : String} {a : Expr (Complex R)} (h : Denotes .expr (written s) a) :
    parse s = .ok a := by
  unfold parse
  rw [tokenize_eq]
  exact parseTokens_of_denotes h

/-- A text is parsed as a tree if and only if the grammar derives it with that tree. -/
theorem parse_eq_ok_iff (s : String) (a : Expr (Complex R)) :
    parse s = .ok a ↔ Denotes .expr (written s) a :=
  ⟨denotes_of_parse, parse_of_denotes⟩

end Formulary
