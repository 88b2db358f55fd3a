import Formulary.Proofs.Grammar.Descent

/-!
# Fused lexemes

Fusing looks at three lexemes that touch, at what stands before them and at what follows. On placed
lexemes it needs no blanks: lexemes touch where one starts at the byte after the other.

* `Placed.joinable`, `Placed.join`: the parts of a complex numeral and the numeral.
* `fusePlaced`: fusing on placed lexemes; `placed_fuse` says that it is fusing.
* `Lexeme.IsSimple`: a numeral that is no complex one yet.
* `literalValue?_join`, `readNumber_join`, `readNumber_of_join`: a complex numeral has the values of
  its parts, and it has a value only if they have.
-/

namespace Formulary

universe u

/-! ### Fusing placed lexemes -/

namespace Placed

/-- The byte after the lexeme. -/
def stop (l : Placed) : Nat :=
  l.start + byteLength l.lexeme.chars

/-- The lexemes touch each other and are the parts of a complex numeral. -/
def joinable (n p m : Placed) : Bool :=
  n.lexeme.isReal && p.isSign '+' && m.lexeme.isImaginary && n.stop == p.start && p.stop == m.start

/-- The complex numeral with these parts. -/
def join (n p m : Placed) : Placed :=
  ⟨⟨.numeral, n.lexeme.chars ++ p.lexeme.chars ++ m.lexeme.chars⟩, n.start⟩

/-- A whole term may start after the lexeme. -/
def opens (l : Placed) : Bool :=
  l.isSign '(' || l.isSign '+'

/-- The lexeme ends the term before it. -/
def closes (l : Placed) : Bool :=
  l.isSign ')' || l.isSign '+' || l.isSign '-'

end Placed

/-- The lexemes end the term before them. -/
def closesPlaced (ls : List Placed) : Bool :=
  ls.head?.all Placed.closes

/-- Placed lexemes with complex numerals fused. -/
def fusePlaced (opens : Bool) : List Placed → List Placed
  | n :: p :: m :: ls =>
    if opens && n.joinable p m && closesPlaced ls then n.join p m :: fusePlaced false ls
    else n :: fusePlaced n.opens (p :: m :: ls)
  | ls => ls

/-- A lexeme with which no complex numeral begins is left. -/
theorem fusePlaced_cons {opens : Bool} {n : Placed} {ls : List Placed}
    (h : ∀ p m rest, ls = p :: m :: rest → opens = true → n.joinable p m = true →
      closesPlaced rest = false) :
    fusePlaced opens (n :: ls) = n :: fusePlaced n.opens ls := by
  cases ls with
  | nil => rfl
  | cons p ls =>
    cases ls with
    | nil => rfl
    | cons m rest =>
      have hne : ¬ (opens && n.joinable p m && closesPlaced rest) = true := by
        intro hfuse
        obtain ⟨hfuse, hcloses⟩ := Bool.and_eq_true_iff.1 hfuse
        obtain ⟨hopens, hjoin⟩ := Bool.and_eq_true_iff.1 hfuse
        rw [h p m rest rfl hopens hjoin] at hcloses
        exact Bool.false_ne_true hcloses
      rw [fusePlaced, if_neg hne]

theorem fusePlaced_false (n : Placed) (ls : List Placed) :
    fusePlaced false (n :: ls) = n :: fusePlaced n.opens ls :=
  fusePlaced_cons fun _ _ _ _ h => absurd h Bool.false_ne_true

theorem fusePlaced_of_not_isReal {opens : Bool} {n : Placed} (ls : List Placed)
    (h : n.lexeme.isReal = false) : fusePlaced opens (n :: ls) = n :: fusePlaced n.opens ls := by
  refine fusePlaced_cons fun p m rest _ _ hjoin => ?_
  unfold Placed.joinable at hjoin
  rw [h] at hjoin
  exact absurd hjoin Bool.false_ne_true

theorem fusePlaced_join {n p m : Placed} {ls : List Placed} (hjoin : n.joinable p m = true)
    (hcloses : closesPlaced ls = true) :
    fusePlaced true (n :: p :: m :: ls) = n.join p m :: fusePlaced false ls := by
  rw [fusePlaced, hjoin, hcloses]
  rfl

/-! ### It is fusing -/

theorem byteLength_append (cs ds : List Char) :
    byteLength (cs ++ ds) = byteLength cs + byteLength ds := by
  induction cs with
  | nil => exact (Nat.zero_add _).symm
  | cons c cs ih =>
    show c.utf8Size + byteLength (cs ++ ds) = c.utf8Size + byteLength cs + byteLength ds
    rw [ih, Nat.add_assoc]

theorem byteLength_pos {cs : List Char} (h : cs ≠ []) : 0 < byteLength cs := by
  cases cs with
  | nil => exact absurd rfl h
  | cons c cs =>
    have hc := Char.utf8Size_pos c
    show 0 < c.utf8Size + byteLength cs
    omega

theorem placed_blank {l : Lexeme} (pos : Nat) (ls : List Lexeme) (h : (l.cls == .blank) = true) :
    placed pos (l :: ls) = placed (pos + byteLength l.chars) ls := by
  simp only [placed]
  rw [if_pos h]

theorem placed_cons {l : Lexeme} (pos : Nat) (ls : List Lexeme) (h : (l.cls == .blank) = false) :
    placed pos (l :: ls) = ⟨l, pos⟩ :: placed (pos + byteLength l.chars) ls := by
  simp only [placed]
  rw [h, if_neg Bool.false_ne_true]

theorem placed_append (pos : Nat) (ls rs : List Lexeme) :
    placed pos (ls ++ rs)
      = placed pos ls ++ placed (pos + byteLength (ls.flatMap Lexeme.chars)) rs := by
  induction ls generalizing pos with
  | nil => rfl
  | cons l ls ih =>
    rw [List.cons_append, List.flatMap_cons, byteLength_append, ← Nat.add_assoc]
    cases hblank : l.cls == .blank with
    | true => rw [placed_blank _ _ hblank, placed_blank _ _ hblank, ih]
    | false => rw [placed_cons _ _ hblank, placed_cons _ _ hblank, ih, List.cons_append]

theorem le_start_of_mem_placed {pos : Nat} {ls : List Lexeme} {l : Placed} (h : l ∈ placed pos ls) :
    pos ≤ l.start := by
  induction ls generalizing pos with
  | nil => cases h
  | cons l' ls ih =>
    cases hblank : l'.cls == .blank with
    | true =>
      rw [placed_blank _ _ hblank] at h
      exact Nat.le_trans (Nat.le_add_right _ _) (ih h)
    | false =>
      rw [placed_cons _ _ hblank] at h
      rcases List.mem_cons.1 h with rfl | h
      · exact Nat.le_refl _
      · exact Nat.le_trans (Nat.le_add_right _ _) (ih h)

/-- What touches is not blank, and it is the next lexeme. -/
theorem eq_of_touches {pos : Nat} {l : Lexeme} {ls : List Lexeme} {p : Placed} {ps : List Placed}
    (hl : l.cls = .blank → l.chars ≠ []) (h : placed pos (l :: ls) = p :: ps) (hp : pos = p.start) :
    p = ⟨l, pos⟩ ∧ ps = placed (pos + byteLength l.chars) ls := by
  cases hblank : l.cls == .blank with
  | true =>
    rw [placed_blank _ _ hblank] at h
    have hmem : p ∈ placed (pos + byteLength l.chars) ls := h ▸ List.mem_cons_self
    have hle := le_start_of_mem_placed hmem
    have hpos := byteLength_pos (hl (eq_of_beq hblank))
    omega
  | false =>
    rw [placed_cons _ _ hblank] at h
    obtain ⟨rfl, rfl⟩ := List.cons.inj h
    exact ⟨rfl, rfl⟩

theorem closesPlaced_placed (pos : Nat) (ls : List Lexeme) :
    closesPlaced (placed pos ls) = closesTerm ls := by
  induction ls generalizing pos with
  | nil => rfl
  | cons l ls ih =>
    cases hblank : l.cls == .blank with
    | true =>
      rw [placed_blank _ _ hblank, ih, closesTerm, if_pos hblank]
    | false =>
      rw [placed_cons _ _ hblank, closesTerm, hblank, if_neg Bool.false_ne_true]
      rfl

theorem length_placed_le (pos : Nat) (ls : List Lexeme) : (placed pos ls).length ≤ ls.length := by
  induction ls generalizing pos with
  | nil => exact Nat.le_refl _
  | cons l ls ih =>
    simp only [placed]
    split
    · exact Nat.le_succ_of_le (ih _)
    · exact Nat.succ_le_succ (ih _)

theorem fusePlaced_of_short {opens : Bool} {ls : List Placed} (h : ls.length < 3) :
    fusePlaced opens ls = ls := by
  unfold fusePlaced
  split
  · simp only [List.length_cons] at h
    omega
  · rfl

/-- Fusing before or after the lexemes get their places is the same. -/
theorem placed_fuse {opens : Bool} {ls : List Lexeme} (pos : Nat)
    (h : ∀ l ∈ ls, l.cls = .blank → l.chars ≠ []) :
    placed pos (fuse opens ls) = fusePlaced opens (placed pos ls) := by
  fun_induction fuse opens ls generalizing pos with
  | case1 opens a p b ls hfuse ih =>
    have hls l hl := h l (List.mem_cons_of_mem _ (List.mem_cons_of_mem _ (List.mem_cons_of_mem _ hl)))
    simp only [Bool.and_eq_true] at hfuse
    obtain ⟨⟨⟨⟨hopens, ha⟩, hp⟩, hb⟩, hcloses⟩ := hfuse
    have hcls {l : Lexeme} {k : LexemeClass} (hl : (l.cls == k) = true) (hk : (k == .blank) = false) :
        (l.cls == .blank) = false := (eq_of_beq hl).symm ▸ hk
    have hblank := hcls (Bool.and_eq_true_iff.1 ha).1 rfl
    have hblank' := hcls (Bool.and_eq_true_iff.1 hp).1 rfl
    have hblank'' := hcls (Bool.and_eq_true_iff.1 hb).1 rfl
    have hjoin : Placed.joinable ⟨a, pos⟩ ⟨p, pos + byteLength a.chars⟩
        ⟨b, pos + byteLength a.chars + byteLength p.chars⟩ = true := by
      unfold Placed.joinable Placed.isSign Placed.stop
      rw [ha, hp, hb, beq_self_eq_true, beq_self_eq_true]
      rfl
    rw [placed_cons pos _ hblank, placed_cons _ _ hblank', placed_cons _ _ hblank'', hopens,
      fusePlaced_join hjoin ((closesPlaced_placed _ _).trans hcloses), ← ih _ hls,
      placed_cons pos _ rfl, byteLength_append, byteLength_append, ← Nat.add_assoc, ← Nat.add_assoc]
    rfl
  | case2 opens a p b ls hfuse ih =>
    have hls l hl := h l (List.mem_cons_of_mem _ hl)
    cases hblank : a.cls == .blank with
    | true =>
      rw [placed_blank _ _ hblank, placed_blank _ _ hblank, ih _ hls, opensTerm, if_pos hblank]
    | false =>
      have hopens : opensTerm opens a = Placed.opens ⟨a, pos⟩ := by
        rw [opensTerm, hblank, if_neg Bool.false_ne_true]
        rfl
      rw [placed_cons _ _ hblank, placed_cons _ _ hblank, ih _ hls, hopens]
      refine (fusePlaced_cons fun p' b' rest heq hopen hjoin => ?_).symm
      unfold Placed.joinable at hjoin
      simp only [Bool.and_eq_true, beq_iff_eq] at hjoin
      obtain ⟨⟨⟨⟨ha, hp⟩, hb⟩, htouch⟩, htouch'⟩ := hjoin
      obtain ⟨rfl, hrest⟩ := eq_of_touches (h p (by simp)) heq htouch
      obtain ⟨rfl, rfl⟩ := eq_of_touches (h b (by simp)) hrest.symm htouch'
      rw [closesPlaced_placed, Bool.eq_false_iff]
      intro hcloses
      refine hfuse ?_
      rw [hopen, show a.isReal = true from ha, show p.isSign '+' = true from hp,
        show b.isImaginary = true from hb, hcloses]
      rfl
  | case3 opens ls hshort =>
    refine (fusePlaced_of_short (Nat.lt_of_le_of_lt (length_placed_le pos ls) ?_)).symm
    rcases ls with _ | ⟨a, _ | ⟨p, _ | ⟨b, ls⟩⟩⟩
    · exact Nat.zero_lt_succ _
    · exact Nat.succ_lt_succ (Nat.zero_lt_succ _)
    · exact Nat.succ_lt_succ (Nat.succ_lt_succ (Nat.zero_lt_succ _))
    · exact absurd rfl (hshort a p b ls)

/-! ### The value of a complex numeral -/

/-- A numeral is not joined from two, and it does not end inside an exponent. -/
def Lexeme.IsSimple (l : Lexeme) : Prop :=
  l.cls = .numeral → splitSum l.chars = none ∧ l.chars.getLast?.any isExponentMark = false

theorem splitSumAfter_cons_eq_none {b c : Char} {cs : List Char} :
    splitSumAfter b (c :: cs) = none ↔
      (c == '+' && !isExponentMark b) = false ∧ splitSumAfter c cs = none := by
  simp only [splitSumAfter]
  split
  · next h => simp [h]
  · next h => simp [h]

/-- What begins a text without a plus sign to split at has none either. -/
theorem splitSumAfter_of_append {b : Char} {cs ds : List Char}
    (h : splitSumAfter b (cs ++ ds) = none) : splitSumAfter b cs = none := by
  induction cs generalizing b with
  | nil => rfl
  | cons c cs ih =>
    obtain ⟨hc, h⟩ := splitSumAfter_cons_eq_none.1 h
    exact splitSumAfter_cons_eq_none.2 ⟨hc, ih h⟩

/-- A joined numeral is split where it was joined. -/
theorem splitSumAfter_append {b : Char} {cs : List Char} (ds : List Char)
    (h : splitSumAfter b cs = none)
    (hlast : (b :: cs).getLast?.any isExponentMark = false) :
    splitSumAfter b (cs ++ '+' :: ds) = some (cs, ds) := by
  induction cs generalizing b with
  | nil =>
    have hb : isExponentMark b = false := hlast
    show (if '+' == '+' && !isExponentMark b then some ([], ds) else _) = _
    rw [hb]
    rfl
  | cons c cs ih =>
    obtain ⟨hc, h⟩ := splitSumAfter_cons_eq_none.1 h
    have hih := ih h (by rwa [List.getLast?_cons_cons] at hlast)
    rw [List.cons_append]
    simp only [splitSumAfter]
    rw [hc, if_neg Bool.false_ne_true, hih]
    rfl

theorem splitSum_append {cs : List Char} (ds : List Char) (hne : cs ≠ []) (h : splitSum cs = none)
    (hlast : cs.getLast?.any isExponentMark = false) :
    splitSum (cs ++ '+' :: ds) = some (cs, ds) := by
  cases cs with
  | nil => exact absurd rfl hne
  | cons c cs =>
    have hc : splitSumAfter c cs = none := Option.map_eq_none_iff.1 h
    rw [List.cons_append]
    simp only [splitSum]
    rw [splitSumAfter_append ds hc hlast]
    rfl

theorem splitSum_of_append {cs ds : List Char} (h : splitSum (cs ++ ds) = none) :
    splitSum cs = none := by
  cases cs with
  | nil => rfl
  | cons c cs => exact Option.map_eq_none_iff.2 (splitSumAfter_of_append (Option.map_eq_none_iff.1 h))

/-- Without its unit a simple numeral has no plus sign to split at either. -/
theorem Lexeme.IsSimple.splitSum_dropLast {l : Lexeme} (h : l.IsSimple) (hcls : l.cls = .numeral) :
    splitSum l.chars.dropLast = none := by
  obtain ⟨ds, hds⟩ := List.dropLast_prefix l.chars
  have hnone := (h hcls).1
  rw [← hds] at hnone
  exact splitSum_of_append hnone

/-- A joined numeral ends as its second part does. -/
theorem getLast?_join (as : List Char) {bs : List Char} (hbs : bs ≠ []) :
    (as ++ '+' :: bs).getLast? = bs.getLast? := by
  rw [List.getLast?_append, List.getLast?_cons_of_ne_nil hbs,
    Option.or_of_isSome (by simpa using hbs)]

section Value

variable {R : Type u} [RealArith R]

open RealArith

theorem text_of_numeral {l : Placed} (h : l.lexeme.cls = .numeral) :
    l.text.toList = l.lexeme.chars := by
  unfold Placed.text Lexeme.text
  rw [h, if_neg (by decide)]
  exact String.toList_ofList

/-- The value that the text before an imaginary unit gives to it. -/
def imaginaryPart? (body : List Char) : Option R :=
  if body.isEmpty then some 1 else realValue? body

/-- The value of a numeral without an imaginary unit has no imaginary part. -/
theorem literalValue?_of_isReal {l : Placed} (h : l.lexeme.isReal = true) :
    literalValue? l.text.toList = (realValue? l.lexeme.chars : Option R).map .ofReal := by
  obtain ⟨hcls, hunit⟩ := Bool.and_eq_true_iff.1 h
  rw [Bool.not_eq_true'] at hunit
  rw [text_of_numeral (eq_of_beq hcls), literalValue?, hunit, if_neg Bool.false_ne_true]

/-- The value of a simple numeral with an imaginary unit has no real part. -/
theorem literalValue?_of_isImaginary {l : Placed} (h : l.lexeme.isImaginary = true)
    (hl : l.lexeme.IsSimple) : literalValue? l.text.toList =
      (imaginaryPart? l.lexeme.chars.dropLast : Option R).map fun s => (⟨0, s⟩ : Complex R) := by
  obtain ⟨hcls, hunit⟩ := Bool.and_eq_true_iff.1 h
  have hsplit := hl.splitSum_dropLast (eq_of_beq hcls)
  rw [text_of_numeral (eq_of_beq hcls), literalValue?, if_pos hunit, imaginaryValue?,
    imaginaryPart?]
  split
  · rfl
  · rw [hsplit]

/-- Without the unit at its end, a joined numeral is split where it was joined. -/
theorem splitSum_dropLast_append {as bs : List Char} (hne : as ≠ []) (hsplit : splitSum as = none)
    (hlast : as.getLast?.any isExponentMark = false) (hbs : bs ≠ []) :
    splitSum (as ++ '+' :: bs).dropLast = some (as, bs.dropLast) := by
  rw [List.dropLast_append_of_ne_nil (by simp), List.dropLast_cons_of_ne_nil hbs]
  exact splitSum_append _ hne hsplit hlast

/-- The value of a joined numeral has the value of its first part and that of its second. -/
theorem literalValue?_append {as bs : List Char} (hne : as ≠ []) (hsplit : splitSum as = none)
    (hlast : as.getLast?.any isExponentMark = false) (hunit : bs.getLast?.any isUnit = true)
    {v : Complex R} : literalValue? (as ++ '+' :: bs) = some v ↔
      realValue? as = some v.re ∧ imaginaryPart? bs.dropLast = some v.im := by
  have hbs : bs ≠ [] := by
    rintro rfl
    exact Bool.false_ne_true hunit
  have hbody : ¬(as ++ '+' :: bs).dropLast.isEmpty = true := by
    rw [List.dropLast_append_of_ne_nil (by simp)]
    simp [hne]
  rw [literalValue?, getLast?_join as hbs, if_pos hunit, imaginaryValue?, if_neg hbody,
    splitSum_dropLast_append hne hsplit hlast hbs]
  have hpart : (if bs.dropLast.isEmpty then some 1 else realValue? bs.dropLast) =
      imaginaryPart? (R := R) bs.dropLast :=
    rfl
  dsimp only
  rw [hpart]
  split
  · next re im hre him =>
    rw [hre, him]
    constructor
    · rintro ⟨rfl⟩
      exact ⟨rfl, rfl⟩
    · rintro ⟨⟨rfl⟩, ⟨rfl⟩⟩
      rfl
  · next hnone =>
    constructor
    · exact fun h => by cases h
    · exact fun h => absurd h.2 (hnone _ _ h.1)

theorem literalValue?_join {n p m : Placed} (hjoin : n.joinable p m = true)
    (hn : n.lexeme.IsSimple) (hne : n.lexeme.chars ≠ []) {v : Complex R} :
    literalValue? (n.join p m).text.toList = some v ↔
      realValue? n.lexeme.chars = some v.re ∧ imaginaryPart? m.lexeme.chars.dropLast = some v.im := by
  unfold Placed.joinable at hjoin
  simp only [Bool.and_eq_true] at hjoin
  obtain ⟨⟨⟨⟨hreal, hp⟩, himaginary⟩, -⟩, -⟩ := hjoin
  obtain ⟨hcls, -⟩ := Bool.and_eq_true_iff.1 hreal
  obtain ⟨-, hunit⟩ := Bool.and_eq_true_iff.1 himaginary
  obtain ⟨hsplit, hlast⟩ := hn (eq_of_beq hcls)
  have hchars : (n.join p m).lexeme.chars = n.lexeme.chars ++ '+' :: m.lexeme.chars := by
    show n.lexeme.chars ++ p.lexeme.chars ++ m.lexeme.chars = _
    rw [(isSign_iff.1 hp).2, List.append_assoc]
    rfl
  rw [text_of_numeral rfl, hchars]
  exact literalValue?_append hne hsplit hlast hunit

/-- A complex numeral has the real part of its first and the imaginary part of its second part. -/
theorem readNumber_join {n p m : Placed} {q q' : Nat} {v w : Complex R}
    (hjoin : n.joinable p m = true) (hn : n.lexeme.IsSimple) (hm : m.lexeme.IsSimple)
    (hv : readNumber n.text q = .ok v) (hw : readNumber m.text q' = .ok w) :
    ∃ r s, v = .ofReal r ∧ w = ⟨0, s⟩ ∧
      readNumber (n.join p m).text (n.join p m).start = .ok (⟨r, s⟩ : Complex R) := by
  have hparts := hjoin
  unfold Placed.joinable at hparts
  simp only [Bool.and_eq_true] at hparts
  obtain ⟨hliteral, hfinite⟩ := readNumber_eq_ok_iff.1 hv
  obtain ⟨hliteral', hfinite'⟩ := readNumber_eq_ok_iff.1 hw
  rw [literalValue?_of_isReal hparts.1.1.1.1] at hliteral
  rw [literalValue?_of_isImaginary hparts.1.1.2 hm] at hliteral'
  obtain ⟨r, hr, rfl⟩ := Option.map_eq_some_iff.1 hliteral
  obtain ⟨s, hs, rfl⟩ := Option.map_eq_some_iff.1 hliteral'
  have hne : n.lexeme.chars ≠ [] := by
    intro hnil
    rw [hnil] at hr
    cases hr
  refine ⟨r, s, rfl, rfl, readNumber_eq_ok_iff.2 ⟨(literalValue?_join hjoin hn hne).2 ⟨hr, hs⟩, ?_⟩⟩
  exact Bool.and_eq_true_iff.2
    ⟨(Bool.and_eq_true_iff.1 hfinite).1, (Bool.and_eq_true_iff.1 hfinite').2⟩

/-- A complex numeral has a value only if its parts have, where zero is finite. -/
theorem readNumber_of_join (hzero : RealArith.isFinite (0 : R) = true) {n p m : Placed}
    {v : Complex R} (hjoin : n.joinable p m = true) (hn : n.lexeme.IsSimple)
    (hm : m.lexeme.IsSimple) (hne : n.lexeme.chars ≠ [])
    (hv : readNumber (n.join p m).text (n.join p m).start = .ok v) :
    readNumber n.text n.start = .ok (.ofReal v.re) ∧
      readNumber m.text m.start = .ok (⟨0, v.im⟩ : Complex R) := by
  obtain ⟨hliteral, hfinite⟩ := readNumber_eq_ok_iff.1 hv
  obtain ⟨hre, him⟩ := (literalValue?_join hjoin hn hne).1 hliteral
  obtain ⟨hfinre, hfinim⟩ := Bool.and_eq_true_iff.1 hfinite
  unfold Placed.joinable at hjoin
  simp only [Bool.and_eq_true] at hjoin
  refine ⟨readNumber_eq_ok_iff.2 ⟨?_, Bool.and_eq_true_iff.2 ⟨hfinre, hzero⟩⟩,
    readNumber_eq_ok_iff.2 ⟨?_, Bool.and_eq_true_iff.2 ⟨hzero, hfinim⟩⟩⟩
  · rw [literalValue?_of_isReal hjoin.1.1.1.1, hre]
    rfl
  · rw [literalValue?_of_isImaginary hjoin.1.1.2 hm, him]
    rfl

end Value

end Formulary
