import Formulary.Proofs.Parse.Conversion

/-!
# What the conversion keeps

The conversion knows nothing of adjacency: it moves tokens about. What it loses is parentheses only,
and of these it counts the open ones.

* `Token.weight`, `weigh`: operands count one, operators between operands minus one.
* `Waiting.opens`, `Waiting.depth`: the parentheses that wait, and how many they are.
* `Waiting.Releases`: operators go from the stack to the output.
* `close_of_opens_nil`, `close_of_opens_cons`: a closing parenthesis needs one that waits.
* `place_cases`: all that one token can do.
* `weight_place`, `opens_place_open`, `opens_place_other`, `mem_place`: one step.
* **`weigh_of_runs`**, **`mem_of_runs`**: a run that finishes keeps the weight of its tokens and
  puts out every operand.
* `weigh_of_spells`: the tokens of a tree weigh one.
-/

namespace Formulary

universe u

/-- What the token does to the number of operands that have no operator yet. -/
def Token.weight (t : Token) : Int :=
  match t.kind with
  | .number | .name => 1
  | .operator o => if o.binary?.isSome then -1 else 0
  | .blank | .unknown | .endOfText => 0

/-- The weight of tokens together. -/
def weigh : List Token → Int
  | [] => 0
  | t :: ts => t.weight + weigh ts

theorem weigh_append (ts us : List Token) : weigh (ts ++ us) = weigh ts + weigh us := by
  induction ts with
  | nil => exact (Int.zero_add _).symm
  | cons t ts ih =>
    show t.weight + weigh (ts ++ us) = t.weight + weigh ts + weigh us
    rw [ih]
    omega

theorem weigh_reverse (ts : List Token) : weigh ts.reverse = weigh ts := by
  induction ts with
  | nil => rfl
  | cons t ts ih =>
    rw [List.reverse_cons, weigh_append, ih]
    show weigh ts + (t.weight + 0) = t.weight + weigh ts
    omega

theorem Token.weight_of_value {t : Token} (h : t.kind.isValue = true) : t.weight = 1 := by
  unfold TokenKind.isValue at h
  unfold Token.weight
  split at h
  · next hk => rw [hk]
  · next hk => rw [hk]
  · cases h

theorem Token.weight_of_operator {t : Token} {o : Operator} (h : t.kind = .operator o) :
    t.weight = if o.binary?.isSome then -1 else 0 := by
  unfold Token.weight
  rw [h]

variable {R : Type u} [RealArith R]

/-- The tokens of a tree weigh one. -/
theorem weigh_of_spells {ts : List Token} {a : Expr (Complex R)} (h : Spells ts a) :
    weigh ts = 1 := by
  induction h with
  | @number t v hk hv =>
    show t.weight + 0 = 1
    rw [Token.weight_of_value (by rw [hk]; rfl)]
    rfl
  | @name t hk =>
    show t.weight + 0 = 1
    rw [Token.weight_of_value (by rw [hk]; rfl)]
    rfl
  | @apply t f ts a hk ha ih =>
    show t.weight + weigh ts = 1
    rw [Token.weight_of_operator hk, ih]
    rfl
  | @neg t ts a hk ha ih =>
    show t.weight + weigh ts = 1
    rw [Token.weight_of_operator hk, ih]
    rfl
  | @binary t op us ts a b hk hb ha ihb iha =>
    show t.weight + weigh (us ++ ts) = 1
    rw [Token.weight_of_operator hk, Operator.binary?_operator, weigh_append, ihb, iha]
    rfl

theorem not_isOperator_of_isApply {t : Token} (h : t.isApply = true) :
    t.isOperator .openParen = false := by
  unfold Token.isApply at h
  split at h
  · next hk =>
    unfold Token.isOperator
    rw [hk]
    rfl
  · cases h

theorem not_isOperator_of_yieldsTo {t : Token} {o : Operator} (h : t.yieldsTo o = true) :
    t.isOperator .openParen = false := by
  unfold Token.yieldsTo Token.operator? at h
  split at h
  · next o' hk =>
    unfold Token.isOperator
    rw [hk]
    cases o' <;> first | rfl | simp [yieldsTo] at h
  · cases h

/-! ### Released operators -/

namespace Waiting

/-- The weight of all that is put out or waits. -/
def weight (w : Waiting) : Int :=
  weigh w.output + weigh w.stack

/-- The number of parentheses that wait. -/
def depth (w : Waiting) : Nat :=
  w.stack.countP (·.isOperator .openParen)

/-- The parentheses that wait, the latest first. -/
def opens (w : Waiting) : List Token :=
  w.stack.filter (·.isOperator .openParen)

/-- Operators on top of the stack are put out, and no parenthesis is among them. -/
def Releases (w w' : Waiting) : Prop :=
  ∃ moved, (∀ t ∈ moved, t.isOperator .openParen = false) ∧ w.stack = moved ++ w'.stack ∧
    w'.output = moved.reverse ++ w.output

variable {w w' : Waiting} {t : Token} {out stack : List Token}

theorem depth_eq (w : Waiting) : w.depth = w.opens.length :=
  List.countP_eq_length_filter

theorem weight_put : weight ⟨t :: out, stack⟩ = t.weight + weight ⟨out, stack⟩ :=
  Int.add_assoc _ _ _

theorem weight_push : weight ⟨out, t :: stack⟩ = t.weight + weight ⟨out, stack⟩ :=
  Int.add_left_comm _ _ _

theorem opens_push_open (h : t.isOperator .openParen = true) :
    opens ⟨out, t :: stack⟩ = t :: opens ⟨out, stack⟩ :=
  List.filter_cons_of_pos h

theorem opens_push_other (h : t.isOperator .openParen = false) :
    opens ⟨out, t :: stack⟩ = opens ⟨out, stack⟩ :=
  List.filter_cons_of_neg (by rw [h]; exact Bool.false_ne_true)

theorem releases_releaseWhile {p : Token → Bool}
    (hp : ∀ t, p t = true → t.isOperator .openParen = false) : w.Releases (w.releaseWhile p) :=
  ⟨w.stack.takeWhile p, fun t ht => hp t (List.all_eq_true.1 List.all_takeWhile t ht),
    List.takeWhile_append_dropWhile.symm, rfl⟩

theorem releases_releaseApply (w : Waiting) : w.Releases w.releaseApply := by
  unfold releaseApply
  split
  · next t ts hs =>
    split
    · next happly =>
      refine ⟨[t], fun u hu => ?_, hs, rfl⟩
      rw [List.mem_singleton.1 hu]
      exact not_isOperator_of_isApply happly
    · exact ⟨[], nofun, rfl, rfl⟩
  · exact ⟨[], nofun, rfl, rfl⟩

theorem Releases.weight (h : w.Releases w') : w'.weight = w.weight := by
  obtain ⟨moved, -, hstack, hout⟩ := h
  unfold Waiting.weight
  rw [hstack, hout, weigh_append, weigh_append, weigh_reverse]
  omega

theorem Releases.opens (h : w.Releases w') : w'.opens = w.opens := by
  obtain ⟨moved, hmoved, hstack, -⟩ := h
  have hnone : moved.filter (·.isOperator .openParen) = [] := by
    rw [List.filter_eq_nil_iff]
    intro t ht
    rw [hmoved t ht]
    exact Bool.false_ne_true
  unfold Waiting.opens
  rw [hstack, List.filter_append, hnone]
  rfl

theorem Releases.mem_output (h : w.Releases w') (ht : t ∈ w.output) : t ∈ w'.output := by
  obtain ⟨moved, -, -, hout⟩ := h
  rw [hout]
  exact List.mem_append_right _ ht

end Waiting

/-! ### One step -/

/-- A closing parenthesis takes its partner off the stack, and only operators are released. -/
theorem exists_of_close {w w' : Waiting} {p : Nat} (h : w.close p = .ok w') :
    ∃ out o rest, w.Releases ⟨out, o :: rest⟩ ∧ o.isOperator .openParen = true ∧
      Waiting.Releases ⟨out, rest⟩ w' := by
  simp only [Waiting.close] at h
  split at h
  · next o ts hs =>
    cases h
    -- the token on which the release stops is the partner
    have ho : o.isOperator .openParen = true := by
      have hhead := List.head?_dropWhile_not (p := (!·.isOperator .openParen)) (l := w.stack)
      change w.stack.dropWhile _ = _ at hs
      rw [hs] at hhead
      simpa using hhead
    refine ⟨_, o, ts, ?_, ho, Waiting.releases_releaseApply _⟩
    rw [← hs]
    exact Waiting.releases_releaseWhile fun t ht => by simpa using ht
  · cases h

theorem opens_of_close {w w' : Waiting} {p : Nat} (h : w.close p = .ok w') :
    ∃ o, w.opens = o :: w'.opens := by
  obtain ⟨out, o, rest, hrel, ho, hrel'⟩ := exists_of_close h
  exact ⟨o, by rw [← hrel.opens, hrel'.opens, Waiting.opens_push_open ho]⟩

/-- Without a parenthesis that waits there is no partner. -/
theorem close_of_opens_nil {w : Waiting} (p : Nat) (h : w.opens = []) :
    w.close p = .error (.mismatchedClose p) := by
  have hdrop : (w.releaseWhile (!·.isOperator .openParen)).stack = [] := by
    refine List.dropWhile_eq_nil_iff.2 fun t ht => ?_
    simpa using List.filter_eq_nil_iff.1 h t ht
  simp only [Waiting.close, hdrop]

theorem close_of_opens_cons {w : Waiting} {o : Token} {os : List Token} (p : Nat)
    (h : w.opens = o :: os) : ∃ w', w.close p = .ok w' ∧ w'.opens = os := by
  have hok : ∃ w', w.close p = .ok w' := by
    simp only [Waiting.close]
    split
    · exact ⟨_, rfl⟩
    · next hdrop =>
      have hnil : w.opens = [] := by
        refine List.filter_eq_nil_iff.2 fun t ht => ?_
        simpa using List.dropWhile_eq_nil_iff.1 hdrop t ht
      rw [hnil] at h
      cases h
  obtain ⟨w', hw'⟩ := hok
  obtain ⟨o', ho'⟩ := opens_of_close hw'
  rw [h] at ho'
  exact ⟨w', hw', (List.cons.inj ho').2.symm⟩

/-- What is no function, no parenthesis and no negation joins two operands. -/
theorem exists_binary {o : Operator} (happly : ∀ f, o ≠ .apply f) (hopen : o ≠ .openParen)
    (hclose : o ≠ .closeParen) (hneg : o ≠ .neg) : ∃ op : BinaryOp, o.binary? = some op := by
  cases o with
  | apply f => exact absurd rfl (happly f)
  | openParen => exact absurd rfl hopen
  | closeParen => exact absurd rfl hclose
  | neg => exact absurd rfl hneg
  | _ => exact ⟨_, rfl⟩

/-- All that one token can do. -/
theorem place_cases {w w' : Waiting} {t : Token} (h : w.place t = .ok w') :
    t.kind.isValue = true ∧ w' = ⟨t :: w.output, w.stack⟩ ∨
    (∃ o, t.kind = .operator o ∧ o.binary? = none ∧ o ≠ .closeParen ∧
      w' = ⟨w.output, t :: w.stack⟩) ∨
    t.kind = .operator .closeParen ∧ w.close t.start = .ok w' ∨
    (∃ op : BinaryOp, t.kind = .operator op.operator ∧ ∃ out stack, w.Releases ⟨out, stack⟩ ∧
      w' = ⟨out, t :: stack⟩) ∨
    t.kind ∈ [.blank, .unknown, .endOfText] ∧ w' = w := by
  unfold Waiting.place at h
  split at h
  · next hk =>
    cases h
    exact .inl ⟨by rw [hk]; rfl, rfl⟩
  · next hk =>
    cases h
    exact .inl ⟨by rw [hk]; rfl, rfl⟩
  · next f hk =>
    cases h
    exact .inr (.inl ⟨_, hk, rfl, Operator.noConfusion, rfl⟩)
  · next hk =>
    cases h
    exact .inr (.inl ⟨_, hk, rfl, Operator.noConfusion, rfl⟩)
  · next hk =>
    cases h
    exact .inr (.inl ⟨_, hk, rfl, Operator.noConfusion, rfl⟩)
  · next hk => exact .inr (.inr (.inl ⟨hk, h⟩))
  · next o happly hopen hneg hclose hk =>
    cases h
    obtain ⟨op, hop⟩ := exists_binary happly hopen hclose hneg
    refine .inr (.inr (.inr (.inl ⟨op, ?_, _, _, ?_, rfl⟩)))
    · rw [hk, Operator.operator_of_binary? hop]
    · exact Waiting.releases_releaseWhile fun _ => not_isOperator_of_yieldsTo
  · next hk =>
    cases h
    exact .inr (.inr (.inr (.inr ⟨by simp [hk], rfl⟩)))
  · next hk =>
    cases h
    exact .inr (.inr (.inr (.inr ⟨by simp [hk], rfl⟩)))
  · next hk =>
    cases h
    exact .inr (.inr (.inr (.inr ⟨by simp [hk], rfl⟩)))

/-- A token adds its own weight. -/
theorem weight_place {w w' : Waiting} {t : Token} (h : w.place t = .ok w') :
    w'.weight = t.weight + w.weight := by
  obtain ⟨-, rfl⟩ | ⟨o, -, -, -, rfl⟩ | ⟨hk, hclose⟩ | ⟨op, hk, out, stack, hrel, rfl⟩ | ⟨hk, rfl⟩ :=
    place_cases h
  · exact Waiting.weight_put
  · exact Waiting.weight_push
  · obtain ⟨out, o, rest, hrel, ho, hrel'⟩ := exists_of_close hclose
    rw [hrel'.weight, ← hrel.weight, Waiting.weight_push, Token.weight_of_operator hk,
      Token.weight_of_operator (eq_of_beq ho)]
    show _ = 0 + (0 + _)
    rw [Int.zero_add, Int.zero_add]
  · rw [Waiting.weight_push, hrel.weight]
  · have ht : t.weight = 0 := by
      unfold Token.weight
      simp only [List.mem_cons, List.not_mem_nil, or_false] at hk
      rcases hk with hk | hk | hk <;> rw [hk]
    rw [ht, Int.zero_add]

/-- Only a closing parenthesis can fail. -/
theorem exists_place (w : Waiting) {t : Token} (h : t.kind ≠ .operator .closeParen) :
    ∃ w', w.place t = .ok w' := by
  unfold Waiting.place
  split
  all_goals first | exact ⟨_, rfl⟩ | exact absurd ‹_› h

theorem place_of_closeParen (w : Waiting) {t : Token} (hk : t.kind = .operator .closeParen) :
    w.place t = w.close t.start := by
  unfold Waiting.place
  rw [hk]

theorem opens_place_open {w w' : Waiting} {t : Token} (h : w.place t = .ok w')
    (hk : t.kind = .operator .openParen) : w'.opens = t :: w.opens := by
  unfold Waiting.place at h
  rw [hk] at h
  cases h
  refine Waiting.opens_push_open ?_
  unfold Token.isOperator
  rw [hk]
  rfl

/-- No other token changes which parentheses wait. -/
theorem opens_place_other {w w' : Waiting} {t : Token} (h : w.place t = .ok w')
    (hopen : t.kind ≠ .operator .openParen) (hclose : t.kind ≠ .operator .closeParen) :
    w'.opens = w.opens := by
  have ht : t.isOperator .openParen = false := beq_false_of_ne hopen
  obtain ⟨-, rfl⟩ | ⟨o, -, -, -, rfl⟩ | ⟨hk, -⟩ | ⟨op, -, out, stack, hrel, rfl⟩ | ⟨-, rfl⟩ :=
    place_cases h
  · rfl
  · exact Waiting.opens_push_other ht
  · exact absurd hk hclose
  · rw [Waiting.opens_push_other ht, hrel.opens]
  · rfl

theorem depth_place_open {w w' : Waiting} {t : Token} (h : w.place t = .ok w')
    (hk : t.kind = .operator .openParen) : w'.depth = w.depth + 1 := by
  rw [w'.depth_eq, w.depth_eq, opens_place_open h hk, List.length_cons]

theorem depth_place_close {w w' : Waiting} {t : Token} (h : w.place t = .ok w')
    (hk : t.kind = .operator .closeParen) : w.depth = w'.depth + 1 := by
  obtain ⟨o, ho⟩ := opens_of_close (place_of_closeParen w hk ▸ h)
  rw [w.depth_eq, w'.depth_eq, ho, List.length_cons]

theorem depth_place_other {w w' : Waiting} {t : Token} (h : w.place t = .ok w')
    (hopen : t.kind ≠ .operator .openParen) (hclose : t.kind ≠ .operator .closeParen) :
    w'.depth = w.depth := by
  rw [w'.depth_eq, w.depth_eq, opens_place_other h hopen hclose]

/-- Operands are put out at once, and what is put out stays. -/
theorem mem_place {w w' : Waiting} {t u : Token} (h : w.place t = .ok w')
    (hu : u ∈ w.output ∨ u = t ∧ t.kind.isValue = true) : u ∈ w'.output := by
  obtain ⟨hv, rfl⟩ | hrest := place_cases h
  · rcases hu with hu | ⟨rfl, -⟩
    · exact List.mem_cons_of_mem _ hu
    · exact List.mem_cons_self
  · have hout : u ∈ w.output := by
      rcases hu with hu | ⟨rfl, hv⟩
      · exact hu
      · -- the other cases are about tokens that are no operands
        obtain ⟨o, hk, -⟩ | ⟨hk, -⟩ | ⟨op, hk, -⟩ | ⟨hk, -⟩ := hrest
        · rw [hk] at hv
          cases hv
        · rw [hk] at hv
          cases hv
        · rw [hk] at hv
          cases hv
        · simp only [List.mem_cons, List.not_mem_nil, or_false] at hk
          rcases hk with hk | hk | hk <;> (rw [hk] at hv; cases hv)
    obtain ⟨o, -, -, -, rfl⟩ | ⟨-, hclose⟩ | ⟨op, -, out, stack, hrel, rfl⟩ | ⟨-, rfl⟩ := hrest
    · exact hout
    · obtain ⟨out, o, rest, hrel, -, hrel'⟩ := exists_of_close hclose
      exact hrel'.mem_output (hrel.mem_output hout)
    · exact hrel.mem_output hout
    · exact hout

/-! ### Runs -/

theorem weight_of_runs {w w' : Waiting} {ts : List Token} (h : Runs w ts w') :
    w'.weight = weigh ts + w.weight := by
  induction h with
  | nil w => exact (Int.zero_add _).symm
  | @cons w w₁ w' t ts hk hp hr ih =>
    rw [ih, weight_place hp]
    show _ = t.weight + weigh ts + w.weight
    omega

theorem mem_of_runs {w w' : Waiting} {ts : List Token} (h : Runs w ts w') {t : Token}
    (ht : t ∈ w.output ∨ t ∈ ts ∧ t.kind.isValue = true) : t ∈ w'.output := by
  induction h with
  | nil w =>
    rcases ht with ht | ⟨ht, -⟩
    · exact ht
    · cases ht
  | @cons w w₁ w' u ts hk hp hr ih =>
    refine ih ?_
    rcases ht with ht | ⟨ht, hv⟩
    · exact .inl (mem_place hp (.inl ht))
    · rcases List.mem_cons.1 ht with rfl | ht
      · exact .inl (mem_place hp (.inr ⟨rfl, hv⟩))
      · exact .inr ⟨ht, hv⟩

theorem finish_eq_ok {w : Waiting} {out : List Token} (h : w.finish = .ok out) :
    out = w.output.reverse ++ w.stack ∧ w.depth = 0 := by
  unfold Waiting.finish at h
  split at h
  · cases h
  · next hfind =>
    cases h
    refine ⟨rfl, ?_⟩
    unfold Waiting.depth
    rw [List.countP_eq_zero]
    exact List.find?_eq_none.1 hfind

/-- A run that finishes keeps the weight of its tokens. -/
theorem weigh_of_runs {w : Waiting} {ts out : List Token} (hr : Runs .start ts w)
    (hf : w.finish = .ok out) : weigh out = weigh ts := by
  have hw := weight_of_runs hr
  rw [(finish_eq_ok hf).1, weigh_append, weigh_reverse]
  show w.weight = _
  rw [hw]
  exact Int.add_zero _

end Formulary
