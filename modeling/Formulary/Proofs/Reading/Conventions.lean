import Mathlib.Data.List.Basic

/-!
# Reading tokens by conventions

How lists of tokens are read as trees where operators stand between operands: which tokens begin an
operand, which join two operands, and how tightly they bind on either side. An operator takes the
operand before it from every operator that binds it less tightly, and goes on as far after it as the
operators bind tighter than its limit.

* `Form`, `Joiner`, `Conventions`: what begins an operand and what joins two.
* `Reads C`: the relation of tokens to the tree they are read as and to the tokens behind it.
* **`Reads.unique`**: there is at most one reading.
* `IsOperand C ok ts a`: the tokens are read as one operand in front of all tokens with a property.
* `Fits C strength grip ok ts a`: they are read as an expression whose operators bind tighter than
  every limit below `strength`, in front of joiners that bind at most as tightly as `grip`.
* `Fits.join`, `Fits.signed`, `IsRest.part`, `IsOperand.enclosed`: how such tokens are put together.
* **`Fits.reads_iff`**: tokens that fit have their tree as the one reading.
-/

namespace Formulary

universe u v

/-- What is still to be read of an operand. -/
inductive Form (T : Type u) (E : Type v) where
  /-- Nothing; this is its tree. -/
  | whole (tree : E)
  /-- An expression whose operators bind tighter than the limit. From its tree and the tokens behind
  it follows what comes next. -/
  | part (limit : Nat) (next : E → List T → Option (Form T E × List T))

/-- What joins two operands. -/
structure Joiner (E : Type v) where
  /-- How tightly it binds the operand before it. -/
  left : Nat
  /-- The limit for the operators in the operand after it. -/
  right : Nat
  join : E → E → E

/-- The conventions of a text form, for tokens in `T` and trees in `E`. -/
structure Conventions (T : Type u) (E : Type v) where
  /-- The form of the operand that begins here, and the tokens behind what shows it. -/
  opening? : List T → Option (Form T E × List T)
  /-- The joiner that stands behind an operand, and the tokens behind the joiner. -/
  joiner? : List T → Option (Joiner E × List T)

/-- What is being read. -/
inductive Stage (T : Type u) (E : Type v) where
  /-- An expression whose operators bind tighter than the limit. -/
  | expr (limit : Nat)
  | operand
  /-- The rest of an operand. -/
  | rest (form : Form T E)
  /-- The rest of an expression behind its first part. -/
  | after (limit : Nat) (left : E)

variable {T : Type u} {E : Type v}

/-- The tokens are read as the tree, with the second tokens behind it. -/
inductive Reads (C : Conventions T E) : Stage T E → List T → E → List T → Prop where
  | expr {limit ts a us b vs} (h : Reads C .operand ts a us)
    (h' : Reads C (.after limit a) us b vs) : Reads C (.expr limit) ts b vs
  | operand {ts f us a vs} (hopen : C.opening? ts = some (f, us)) (h : Reads C (.rest f) us a vs) :
    Reads C .operand ts a vs
  | whole {a ts} : Reads C (.rest (.whole a)) ts a ts
  | part {limit next ts a us f vs b ws} (h : Reads C (.expr limit) ts a us)
    (hnext : next a us = some (f, vs)) (h' : Reads C (.rest f) vs b ws) :
    Reads C (.rest (.part limit next)) ts b ws
  | stop {limit a ts} (h : ∀ j us, C.joiner? ts = some (j, us) → j.left ≤ limit) :
    Reads C (.after limit a) ts a ts
  | join {limit a ts j us b vs c ws} (hjoin : C.joiner? ts = some (j, us)) (hlt : limit < j.left)
    (h : Reads C (.expr j.right) us b vs) (h' : Reads C (.after limit (j.join a b)) vs c ws) :
    Reads C (.after limit a) ts c ws

variable {C : Conventions T E} {ok ok' : List T → Prop} {ts us : List T} {a b : E}
  {strength grip strength' grip' : Nat}

/-- Tokens are read in at most one way. -/
theorem Reads.unique {stage : Stage T E} {us' : List T} (h : Reads C stage ts a us)
    (h' : Reads C stage ts b us') : a = b ∧ us = us' := by
  induction h generalizing b us' with
  | expr _ _ ih ih' =>
    cases h' with
    | expr h₁ h₂ =>
      obtain ⟨rfl, rfl⟩ := ih h₁
      exact ih' h₂
  | operand hopen _ ih =>
    cases h' with
    | operand hopen' h₁ =>
      cases hopen.symm.trans hopen'
      exact ih h₁
  | whole =>
    cases h'
    exact ⟨rfl, rfl⟩
  | part _ hnext _ ih ih' =>
    cases h' with
    | part h₁ hnext' h₂ =>
      obtain ⟨rfl, rfl⟩ := ih h₁
      cases hnext.symm.trans hnext'
      exact ih' h₂
  | stop hstop =>
    cases h' with
    | stop _ => exact ⟨rfl, rfl⟩
    | join hjoin hlt _ _ => exact absurd (hstop _ _ hjoin) (by omega)
  | join hjoin hlt _ _ ih ih' =>
    cases h' with
    | stop hstop => exact absurd (hstop _ _ hjoin) (by omega)
    | join hjoin' _ h₁ h₂ =>
      cases hjoin.symm.trans hjoin'
      obtain ⟨rfl, rfl⟩ := ih h₁
      exact ih' h₂

/-- The tokens are one operand in front of all tokens with the property. -/
def IsOperand (C : Conventions T E) (ok : List T → Prop) (ts : List T) (a : E) : Prop :=
  ∀ us, ok us → Reads C .operand (ts ++ us) a us

/-- No joiner there binds tighter than the limit. -/
def JoinersWithin (C : Conventions T E) (limit : Nat) (ts : List T) : Prop :=
  ∀ j us, C.joiner? ts = some (j, us) → j.left ≤ limit

theorem JoinersWithin.mono {limit limit' : Nat} (h : JoinersWithin C limit ts)
    (hle : limit ≤ limit') : JoinersWithin C limit' ts :=
  fun j us hj => Nat.le_trans (h j us hj) hle

theorem joinersWithin_of_none (h : C.joiner? ts = none) (limit : Nat) :
    JoinersWithin C limit ts := by
  intro j us hj
  cases h.symm.trans hj

/-- The tokens are an expression with the tree: whatever goes on behind it, in front of tokens with
the property, goes on from the tree. -/
def Fits (C : Conventions T E) (strength grip : Nat) (ok : List T → Prop) (ts : List T) (a : E) :
    Prop :=
  ∀ limit < strength, ∀ us, ok us → JoinersWithin C grip us → ∀ b vs,
    Reads C (.after limit a) us b vs → Reads C (.expr limit) (ts ++ us) b vs

/-! ### Putting tokens together -/

theorem IsOperand.fits (h : IsOperand C ok ts a) (strength grip : Nat) :
    Fits C strength grip ok ts a :=
  fun _ _ us hus _ _ _ hafter => .expr (h us hus) hafter

theorem IsOperand.mono (h : IsOperand C ok ts a) (hok : ∀ us, ok' us → ok us) :
    IsOperand C ok' ts a :=
  fun us hus => h us (hok us hus)

/-- Weaker joiners around and fewer tokens behind are no hindrance. -/
theorem Fits.mono (h : Fits C strength grip ok ts a) (hstrength : strength' ≤ strength)
    (hgrip : grip' ≤ grip) (hok : ∀ us, ok' us → ok us) : Fits C strength' grip' ok' ts a :=
  fun limit hlimit us hus hjoin =>
    h limit (by omega) us (hok us hus) (hjoin.mono hgrip)

/-- An expression that fits is read up to where no joiner binds tighter than its own ones and the
limit. -/
theorem Fits.reads (h : Fits C strength grip ok ts a) {limit : Nat} (hlimit : limit < strength)
    (hok : ok us) (hgrip : JoinersWithin C grip us) (hstop : JoinersWithin C limit us) :
    Reads C (.expr limit) (ts ++ us) a us :=
  h limit hlimit us hok hgrip _ _ (.stop hstop)

/-- Two expressions with a joiner between them. -/
theorem Fits.join {j : Joiner E} (os : List T) (ha : Fits C strength grip ok ts a)
    (hb : Fits C strength' grip' ok' us b)
    (hjoiner : ∀ vs, ok' vs → C.joiner? (os ++ (us ++ vs)) = some (j, us ++ vs))
    (hok : ∀ vs, ok' vs → ok (os ++ (us ++ vs))) (hleft : j.left ≤ grip)
    (hright : j.right < strength') :
    Fits C (min j.left strength) (min j.right grip') ok' (ts ++ (os ++ us)) (j.join a b) := by
  intro limit hlimit vs hvs hjoin c ws hafter
  rw [List.append_assoc, List.append_assoc]
  have hnext := hjoiner vs hvs
  refine ha limit (by omega) _ (hok vs hvs) ?_ c ws (.join hnext (by omega) ?_ hafter)
  · intro j' ws' hj'
    cases hnext.symm.trans hj'
    exact hleft
  · exact hb.reads hright hvs (hjoin.mono (Nat.min_le_right ..)) (hjoin.mono (Nat.min_le_left ..))

/-- The tokens are the rest of an operand in front of all tokens with the property. -/
def IsRest (C : Conventions T E) (ok : List T → Prop) (f : Form T E) (ts : List T) (a : E) : Prop :=
  ∀ us, ok us → Reads C (.rest f) (ts ++ us) a us

theorem isRest_whole : IsRest C ok (.whole a) [] a :=
  fun _ _ => .whole

/-- An expression and the tokens behind it that go on with the operand. -/
theorem IsRest.part {next : E → List T → Option (Form T E × List T)} {f : Form T E}
    {limit : Nat} (qs : List T) (ha : Fits C strength grip ok ts a) (hlimit : limit < strength)
    (hnext : ∀ vs, next a (qs ++ vs) = some (f, vs)) (h : IsRest C ok' f us b)
    (hok : ∀ vs, ok (qs ++ vs)) (hjoiner : ∀ vs, C.joiner? (qs ++ vs) = none) :
    IsRest C ok' (.part limit next) (ts ++ (qs ++ us)) b := by
  intro vs hvs
  rw [List.append_assoc, List.append_assoc]
  have hwithin := joinersWithin_of_none (hjoiner (us ++ vs))
  exact .part (ha.reads hlimit (hok _) (hwithin _) (hwithin _)) (hnext _) (h vs hvs)

theorem IsRest.isOperand {f : Form T E} (ps : List T) (h : IsRest C ok f ts a)
    (hopen : ∀ vs, C.opening? (ps ++ vs) = some (f, vs)) : IsOperand C ok (ps ++ ts) a := by
  intro us hus
  rw [List.append_assoc]
  exact .operand (hopen _) (h us hus)

/-- An expression between the tokens that open and close an operand. -/
theorem IsOperand.enclosed {next : E → List T → Option (Form T E × List T)} (ps qs : List T)
    (ha : Fits C strength grip ok ts a) (hstrength : 0 < strength)
    (hopen : ∀ vs, C.opening? (ps ++ vs) = some (.part 0 next, vs))
    (hclose : ∀ vs, next a (qs ++ vs) = some (.whole b, vs)) (hok : ∀ vs, ok (qs ++ vs))
    (hjoiner : ∀ vs, C.joiner? (qs ++ vs) = none) :
    IsOperand C ok' (ps ++ (ts ++ qs)) b := by
  have hrest : IsRest C ok' (.part 0 next) (ts ++ (qs ++ [])) b :=
    IsRest.part qs ha hstrength hclose isRest_whole hok hjoiner
  rw [List.append_nil] at hrest
  exact hrest.isOperand ps hopen

/-- An expression behind a sign. -/
theorem Fits.signed {limit : Nat} {next : E → List T → Option (Form T E × List T)} (ps : List T)
    (ha : Fits C strength grip ok ts a) (hlimit : limit < strength)
    (hopen : ∀ vs, C.opening? (ps ++ vs) = some (.part limit next, vs))
    (hnext : ∀ vs, next a vs = some (.whole b, vs)) :
    Fits C strength' (min limit grip) ok (ps ++ ts) b := by
  intro _ _ us hus hjoin _ _ hafter
  rw [List.append_assoc]
  have hreads := ha.reads hlimit hus (hjoin.mono (Nat.min_le_right ..))
    (hjoin.mono (Nat.min_le_left ..))
  exact .expr (.operand (hopen _) (.part hreads (hnext us) .whole)) hafter

/-- Tokens that fit, with nothing behind them, have one reading. -/
theorem Fits.reads_iff (h : Fits C strength grip ok ts a) (hstrength : 0 < strength) (hok : ok [])
    (hend : C.joiner? [] = none) : Reads C (.expr 0) ts b us ↔ b = a ∧ us = [] := by
  have hwithin := joinersWithin_of_none hend
  have hreads := h.reads hstrength hok (hwithin _) (hwithin _)
  rw [List.append_nil] at hreads
  constructor
  · exact fun h' => h'.unique hreads
  · rintro ⟨rfl, rfl⟩
    exact hreads

end Formulary
