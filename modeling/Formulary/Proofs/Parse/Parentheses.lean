import Mathlib.Data.List.Induction
import Formulary.Token.PostOrder

/-!
# Parentheses and their partners

Two parentheses are partners if all parentheses between them have their partners there.

* `Balanced`: every parenthesis among the tokens has its partner among them.
* `Opened`, `Closed`: the partner of a parenthesis is among the tokens before it, or after it.
* `HasUnopened`, `HasUnclosed`: some parenthesis has no partner.
* `FirstUnopened`, `LastUnclosed`: the first that is never opened and the last that is never closed.
* `Unclosed ts os`: no parenthesis is closed without its partner, and `os` are left open.
* `closed_or_unclosed`: either a parenthesis is closed without its partner or some are left open.
* `opensAfter`: the parentheses that are open, read off one token after the other.
* **`FirstUnopened.balanced`**: the tokens before the first that is never opened are balanced.
* **`LastUnclosed.exists_unclosed`**: the last that is never closed is the one opened last.
-/

namespace Formulary

/-- Every parenthesis among the tokens has its partner among them. -/
inductive Balanced : List Token → Prop where
  | nil : Balanced []
  | other {t : Token} {ts : List Token} (ho : t.isOperator .openParen = false)
    (hc : t.isOperator .closeParen = false) (h : Balanced ts) : Balanced (t :: ts)
  | group {o c : Token} {ts us : List Token} (ho : o.isOperator .openParen = true)
    (hin : Balanced ts) (hc : c.isOperator .closeParen = true) (h : Balanced us) :
    Balanced (o :: (ts ++ c :: us))

/-- A parenthesis that closes after the tokens has its partner among them. -/
def Opened (before : List Token) : Prop :=
  ∃ outside o inside, before = outside ++ o :: inside ∧ o.isOperator .openParen = true ∧
    Balanced inside

/-- A parenthesis that opens before the tokens has its partner among them. -/
def Closed (after : List Token) : Prop :=
  ∃ inside c outside, after = inside ++ c :: outside ∧ c.isOperator .closeParen = true ∧
    Balanced inside

/-- Some parenthesis is closed and never opened. -/
def HasUnopened (ts : List Token) : Prop :=
  ∃ before c after, ts = before ++ c :: after ∧ c.isOperator .closeParen = true ∧ ¬ Opened before

/-- Some parenthesis is opened and never closed. -/
def HasUnclosed (ts : List Token) : Prop :=
  ∃ before o after, ts = before ++ o :: after ∧ o.isOperator .openParen = true ∧ ¬ Closed after

/-- The first parenthesis that is never opened, and the tokens before it. -/
structure FirstUnopened (ts before : List Token) (c : Token) : Prop where
  split : ∃ after, ts = before ++ c :: after
  closes : c.isOperator .closeParen = true
  unopened : ¬ Opened before
  first : ¬ HasUnopened before

/-- The last parenthesis that is never closed. -/
structure LastUnclosed (ts : List Token) (o : Token) : Prop where
  split : ∃ before after, ts = before ++ o :: after ∧ ¬ Closed after ∧ ¬ HasUnclosed after
  opens : o.isOperator .openParen = true

theorem not_close_of_open {t : Token} (h : t.isOperator .openParen = true) :
    t.isOperator .closeParen = false := by
  unfold Token.isOperator at h ⊢
  rw [eq_of_beq h]
  rfl

namespace Balanced

theorem append {ts us : List Token} (h : Balanced ts) (h' : Balanced us) : Balanced (ts ++ us) := by
  induction h with
  | nil => exact h'
  | other ho hc _ ih => exact .other ho hc ih
  | group ho hin hc _ _ ih =>
    rw [List.cons_append, List.append_assoc]
    exact .group ho hin hc ih

theorem single {t : Token} (ho : t.isOperator .openParen = false)
    (hc : t.isOperator .closeParen = false) : Balanced [t] :=
  .other ho hc .nil

end Balanced

/-! ### Parentheses left open -/

/-- No parenthesis is closed without its partner, and the given ones are left open, the latest
first. -/
inductive Unclosed : List Token → List Token → Prop where
  | balanced {ts : List Token} (h : Balanced ts) : Unclosed ts []
  | opened {o : Token} {ts us os : List Token} (h : Unclosed ts os)
    (ho : o.isOperator .openParen = true) (hin : Balanced us) : Unclosed (ts ++ o :: us) (o :: os)

theorem Unclosed.append {ts us os : List Token} (h : Unclosed ts os) (h' : Balanced us) :
    Unclosed (ts ++ us) os := by
  cases h with
  | balanced h => exact .balanced (h.append h')
  | opened h ho hin =>
    rw [List.append_assoc]
    exact .opened h ho (hin.append h')

/-- Either a parenthesis is closed without its partner or some are left open. -/
theorem closed_or_unclosed (ts : List Token) : Closed ts ∨ ∃ os, Unclosed ts os := by
  induction ts using List.reverseRecOn with
  | nil => exact .inr ⟨[], .balanced .nil⟩
  | append_singleton ts t ih =>
    rcases ih with ⟨inside, c, outside, rfl, hc, hin⟩ | ⟨os, h⟩
    · exact .inl ⟨inside, c, outside ++ [t], by rw [List.append_assoc, List.cons_append], hc, hin⟩
    · cases ho : t.isOperator .openParen with
      | true => exact .inr ⟨t :: os, .opened h ho .nil⟩
      | false =>
        cases hc : t.isOperator .closeParen with
        | false => exact .inr ⟨os, h.append (.single ho hc)⟩
        | true =>
          cases h with
          | balanced h => exact .inl ⟨ts, t, [], rfl, hc, h⟩
          | @opened o ts us os h ho' hin =>
            -- the token closes the parenthesis opened last
            rw [List.append_assoc]
            exact .inr ⟨os, h.append (.group ho' hin hc .nil)⟩

/-! ### Reading off what is open -/

/-- The parentheses that are open after the tokens, the latest first, unless one is closed that was
never opened. -/
def opensAfter (os : List Token) : List Token → Option (List Token)
  | [] => some os
  | t :: ts =>
    if t.isOperator .openParen then opensAfter (t :: os) ts
    else if t.isOperator .closeParen then
      match os with
      | [] => none
      | _ :: os => opensAfter os ts
    else opensAfter os ts

section OpensAfter

variable {t o c : Token} {os ts : List Token}

theorem opensAfter_open (h : t.isOperator .openParen = true) :
    opensAfter os (t :: ts) = opensAfter (t :: os) ts := by
  simp only [opensAfter]
  rw [if_pos h]

theorem opensAfter_close (h : t.isOperator .closeParen = true) :
    opensAfter (o :: os) (t :: ts) = opensAfter os ts := by
  have ho : ¬ t.isOperator .openParen = true := fun ho => by
    rw [not_close_of_open ho] at h
    cases h
  simp only [opensAfter]
  rw [if_neg ho, if_pos h]

theorem opensAfter_unopened (h : t.isOperator .closeParen = true) :
    opensAfter [] (t :: ts) = none := by
  have ho : ¬ t.isOperator .openParen = true := fun ho => by
    rw [not_close_of_open ho] at h
    cases h
  simp only [opensAfter]
  rw [if_neg ho, if_pos h]

theorem opensAfter_other (ho : t.isOperator .openParen = false)
    (hc : t.isOperator .closeParen = false) : opensAfter os (t :: ts) = opensAfter os ts := by
  simp only [opensAfter]
  rw [ho, hc, if_neg Bool.false_ne_true, if_neg Bool.false_ne_true]

theorem opensAfter_append (os ts us : List Token) :
    opensAfter os (ts ++ us) = (opensAfter os ts).bind (opensAfter · us) := by
  induction ts generalizing os with
  | nil => rfl
  | cons t ts ih =>
    rw [List.cons_append]
    cases ho : t.isOperator .openParen with
    | true => rw [opensAfter_open ho, opensAfter_open ho, ih]
    | false =>
      cases hc : t.isOperator .closeParen with
      | false => rw [opensAfter_other ho hc, opensAfter_other ho hc, ih]
      | true =>
        cases os with
        | nil => rw [opensAfter_unopened hc, opensAfter_unopened hc, Option.bind_none]
        | cons o os => rw [opensAfter_close hc, opensAfter_close hc, ih]

theorem Balanced.opensAfter_eq (h : Balanced ts) (os : List Token) :
    opensAfter os ts = some os := by
  induction h generalizing os with
  | nil => rfl
  | other ho hc _ ih => rw [opensAfter_other ho hc, ih]
  | group ho _ hc _ ihin ih =>
    rw [opensAfter_open ho, opensAfter_append, ihin, Option.bind_some, opensAfter_close hc, ih]

theorem Unclosed.opensAfter_eq (h : Unclosed ts os) (os' : List Token) :
    opensAfter os' ts = some (os ++ os') := by
  induction h with
  | balanced h => exact h.opensAfter_eq os'
  | opened _ ho hin ih =>
    rw [opensAfter_append, ih, Option.bind_some, opensAfter_open ho, hin.opensAfter_eq,
      List.cons_append]

/-- A parenthesis that is closed without its partner stops the reading. -/
theorem Closed.opensAfter_eq (h : Closed ts) : opensAfter [] ts = none := by
  obtain ⟨inside, c, outside, rfl, hc, hin⟩ := h
  rw [opensAfter_append, hin.opensAfter_eq, Option.bind_some, opensAfter_unopened hc]

/-- The tokens after an open parenthesis close it, or it stays open. -/
theorem mem_of_opensAfter {us : List Token} (h : opensAfter os ts = some us)
    {after : List Token} (hafter : ¬ Closed after) {before : List Token}
    (hts : ts = before ++ o :: after) (ho : o.isOperator .openParen = true) : o ∈ us := by
  rw [hts, opensAfter_append] at h
  obtain ⟨os₁, -, h⟩ := Option.bind_eq_some_iff.1 h
  obtain ⟨os₂, hos₂⟩ := (closed_or_unclosed after).resolve_left hafter
  rw [opensAfter_open ho, hos₂.opensAfter_eq] at h
  cases h
  exact List.mem_append_right _ List.mem_cons_self

end OpensAfter

/-! ### Parentheses without partners -/

variable {ts os : List Token}

theorem Balanced.not_opened (h : Balanced ts) : ¬ Opened ts := by
  rintro ⟨outside, o, inside, rfl, ho, hin⟩
  have hos := h.opensAfter_eq []
  rw [opensAfter_append] at hos
  obtain ⟨os, -, hos⟩ := Option.bind_eq_some_iff.1 hos
  rw [opensAfter_open ho, hin.opensAfter_eq] at hos
  cases hos

/-- Balanced tokens close nothing that was opened before them. -/
theorem Balanced.not_closed (h : Balanced ts) : ¬ Closed ts := by
  intro hclosed
  have hos := h.opensAfter_eq []
  rw [hclosed.opensAfter_eq] at hos
  cases hos

theorem Unclosed.not_hasUnopened (h : Unclosed ts os) : ¬ HasUnopened ts := by
  rintro ⟨before, c, after, rfl, hc, hbefore⟩
  have hclosed (hb : Balanced before) : False := by
    have hos := h.opensAfter_eq []
    rw [Closed.opensAfter_eq ⟨before, c, after, rfl, hc, hb⟩] at hos
    cases hos
  rcases closed_or_unclosed before with ⟨inside, c', outside, rfl, hc', hin⟩ | ⟨os', hos'⟩
  · have hos := h.opensAfter_eq []
    rw [List.append_assoc, List.cons_append,
      Closed.opensAfter_eq ⟨inside, c', outside ++ c :: after, rfl, hc', hin⟩] at hos
    cases hos
  · cases hos' with
    | balanced hb => exact hclosed hb
    | opened _ ho hin => exact hbefore ⟨_, _, _, rfl, ho, hin⟩

theorem Balanced.not_hasUnclosed (h : Balanced ts) : ¬ HasUnclosed ts := by
  rintro ⟨before, o, after, hts, ho, hafter⟩
  cases mem_of_opensAfter (h.opensAfter_eq []) hafter hts ho

theorem not_hasUnopened_iff : ¬ HasUnopened ts ↔ ∃ os, Unclosed ts os := by
  constructor
  · intro h
    refine (closed_or_unclosed ts).resolve_left ?_
    rintro ⟨before, c, after, hts, hc, hbefore⟩
    exact h ⟨before, c, after, hts, hc, hbefore.not_opened⟩
  · rintro ⟨os, h⟩
    exact h.not_hasUnopened

/-- The first parenthesis that is never opened stands after balanced tokens. -/
theorem FirstUnopened.balanced {before : List Token} {c : Token} (h : FirstUnopened ts before c) :
    Balanced before := by
  obtain ⟨os, hos⟩ := not_hasUnopened_iff.1 h.first
  cases hos with
  | balanced h => exact h
  | opened _ ho hin => exact absurd ⟨_, _, _, rfl, ho, hin⟩ h.unopened

theorem exists_firstUnopened (h : HasUnopened ts) : ∃ before c, FirstUnopened ts before c := by
  rcases closed_or_unclosed ts with ⟨before, c, after, hts, hc, hbefore⟩ | ⟨os, hos⟩
  · exact ⟨before, c, ⟨after, hts⟩, hc, hbefore.not_opened,
      (Unclosed.balanced hbefore).not_hasUnopened⟩
  · exact absurd h hos.not_hasUnopened

/-- The last parenthesis that is never closed is the one opened last of those left open. -/
theorem Unclosed.lastUnclosed {o : Token} (h : Unclosed ts (o :: os)) : LastUnclosed ts o := by
  cases h with
  | opened _ ho hin => exact ⟨⟨_, _, rfl, hin.not_closed, hin.not_hasUnclosed⟩, ho⟩

theorem hasUnclosed_iff (h : Unclosed ts os) : HasUnclosed ts ↔ os ≠ [] := by
  cases os with
  | nil =>
    cases h with
    | balanced h => exact ⟨fun hts => absurd hts h.not_hasUnclosed, fun hne => absurd rfl hne⟩
  | cons o os =>
    obtain ⟨⟨before, after, hts, hafter, -⟩, ho⟩ := h.lastUnclosed
    exact ⟨fun _ => List.cons_ne_nil o os, fun _ => ⟨before, o, after, hts, ho, hafter⟩⟩

theorem LastUnclosed.exists_unclosed {o : Token} (h : LastUnclosed ts o) (hts : ¬ HasUnopened ts) :
    ∃ os, Unclosed ts (o :: os) := by
  obtain ⟨⟨before, after, rfl, hafter, hlast⟩, ho⟩ := h
  have hbefore : ¬ HasUnopened before := by
    rintro ⟨outside, c, inside, rfl, hc, hopened⟩
    exact hts ⟨outside, c, inside ++ o :: after, by rw [List.append_assoc]; rfl, hc, hopened⟩
  obtain ⟨os, hos⟩ := not_hasUnopened_iff.1 hbefore
  obtain ⟨us, hus⟩ := (closed_or_unclosed after).resolve_left hafter
  cases hus with
  | balanced hin => exact ⟨os, .opened hos ho hin⟩
  | opened hus ho' hin =>
    exact absurd ((hasUnclosed_iff (.opened hus ho' hin)).2 (List.cons_ne_nil _ _)) hlast

end Formulary
