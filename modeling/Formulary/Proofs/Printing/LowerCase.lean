import Mathlib
import Formulary.Proofs.Printing.Lexing
import Formulary.Text.Lowercase

/-!
# Names in lower case

In lower case a word is still a word, and its lower case is the word itself. The dotted capital `İ`
is an exception to the first: its lower case ends in a combining dot, which no name goes on with.

* `lowerRuns_isLettered`, `lowerRuns_misses`: what the table of lower case is checked for. Every run
  gives letters, and nothing that a run gives is in a run again.
* `Lowers c d`: the character `d` is in lower case and may stand in names where `c` may.
* `exists_lowers`, `lowers_lowerAfter`: this is so of the characters of a text in lower case.
* `IsSmall c`: nothing changes the character. `isSmall_of_mem_lowerAfter`: with the dotted capital,
  the characters of a text in lower case are still of this kind.
* **`isWordText_lower`**, **`lower_lower`**: the two statements.
* `isNameStart_of_mem_head?_lower`, `dot_mem_lower`: with the dotted capital, the first letter is
  still one, and the combining dot is there.
* `eq_of_lower_singleton`: the texts whose lower case is a given letter.
-/

namespace Formulary

open Text

/-! ### The table -/

/-- The least code point that the run gives. -/
def Text.CaseRun.low (r : CaseRun) : Nat :=
  (r.first + r.offset).toNat

/-- The greatest code point that the run gives. -/
def Text.CaseRun.high (r : CaseRun) : Nat :=
  (r.last + r.offset).toNat

/-- No surrogate lies between the bounds. -/
def Text.CaseRun.isScalar (r : CaseRun) : Bool :=
  Nat.ble r.high 0xd7ff || (Nat.ble 0xe000 r.low && Nat.ble r.high 0x10ffff)

/-- The run gives small Latin letters, or letters of one range after the first 128 characters. -/
def Text.CaseRun.isLettered (r : CaseRun) : Bool :=
  (Nat.ble 97 r.low && Nat.ble r.high 122) ||
    (Nat.ble 128 r.low && r.isScalar &&
      alphabeticRanges.any fun q => Nat.ble q.1 r.low && Nat.ble r.high q.2)

/-- The run gives nothing that is in the other one: all that it gives lies before the other one,
after it, or between its members. -/
def Text.CaseRun.misses (r q : CaseRun) : Bool :=
  Nat.blt r.high q.first || Nat.blt q.last r.low ||
    (Nat.beq q.stride 2 && (Nat.beq r.stride 2 || Nat.beq r.low r.high) &&
      Nat.beq ((r.low + q.first) % 2) 1)

/-- The code points whose lower case is not in the table: the dotted capital and the capital
sigma. -/
def specialRuns : List CaseRun :=
  [⟨0x130, 0x130, 1, 0⟩, ⟨0x3a3, 0x3a3, 1, 0⟩]

theorem lowerRuns_isLettered : lowerRuns.all CaseRun.isLettered = true := by decide +kernel

theorem lowerRuns_misses :
    (lowerRuns.all fun r => (specialRuns ++ lowerRuns).all r.misses) = true := by decide +kernel

theorem Text.CaseRun.contains_iff {r : CaseRun} {n : Nat} : r.contains n = true ↔
    r.first ≤ n ∧ n ≤ r.last ∧ (n - r.first) % r.stride = 0 := by
  unfold contains
  rw [Bool.and_eq_true, Bool.and_eq_true, decide_eq_true_iff, decide_eq_true_iff, beq_iff_eq,
    and_assoc]

/-- What a run gives lies between its bounds. -/
theorem Text.CaseRun.bounds_of_contains {r : CaseRun} {n : Nat} (h : r.contains n = true) :
    r.low ≤ (n + r.offset).toNat ∧ (n + r.offset).toNat ≤ r.high := by
  obtain ⟨hfirst, hlast, -⟩ := contains_iff.1 h
  unfold low high
  omega

theorem Text.CaseRun.not_contains_of_misses {r q : CaseRun} {n : Nat} (h : r.misses q = true)
    (hlow : 0 < r.low) (hn : r.contains n = true) : q.contains (n + r.offset).toNat = false := by
  rw [Bool.eq_false_iff]
  intro hq
  obtain ⟨hlo, hhi⟩ := bounds_of_contains hn
  obtain ⟨hfirst, hlast, hstep⟩ := contains_iff.1 hq
  unfold misses at h
  simp only [Bool.or_eq_true, Bool.and_eq_true, Nat.blt_eq, Nat.beq_eq] at h
  rcases h with (h | h) | ⟨⟨hstride, h⟩, hodd⟩
  · omega
  · omega
  · rw [hstride] at hstep
    -- the members of both runs are two apart
    have heven : ((n + r.offset).toNat - r.low) % 2 = 0 := by
      rcases h with h | h
      · obtain ⟨hn, -, hparity⟩ := contains_iff.1 hn
        rw [h] at hparity
        unfold low at hlow ⊢
        omega
      · omega
    omega

/-- What a run gives is a letter that no run changes again. -/
theorem Text.CaseRun.isNameStart_of_contains {r : CaseRun} {n : Nat} (h : r.isLettered = true)
    (hn : r.contains n = true) : 0 < r.low ∧
      (Char.ofNat (n + r.offset).toNat).toNat = (n + r.offset).toNat ∧
      isNameStart (Char.ofNat (n + r.offset).toNat) = true := by
  obtain ⟨hlo, hhi⟩ := bounds_of_contains hn
  generalize (n + r.offset).toNat = m at hlo hhi
  have hvalid {m : Nat} (hm : m.isValidChar) : (Char.ofNat m).toNat = m := by
    rw [Char.toNat_ofNat, if_pos hm]
  unfold isLettered isScalar at h
  simp only [Bool.or_eq_true, Bool.and_eq_true, Nat.ble_eq, List.any_eq_true] at h
  rcases h with ⟨hlow, hhigh⟩ | ⟨⟨hlow, hscalar⟩, q, hq, hqlow, hqhigh⟩
  · have hm : (Char.ofNat m).toNat = m := hvalid (.inl (by omega))
    refine ⟨by omega, hm, ?_⟩
    unfold isNameStart
    rw [isLatinLetter_iff.2 (.inl (by omega)), Bool.true_or]
  · have hm : (Char.ofNat m).toNat = m := by
      refine hvalid ?_
      rcases hscalar with h | ⟨h, h'⟩
      · exact .inl (by omega)
      · exact .inr ⟨by omega, by omega⟩
    refine ⟨by omega, hm, ?_⟩
    have hascii : isAscii (Char.ofNat m) = false := decide_eq_false (by omega)
    have halpha : isAlphabetic (Char.ofNat m) = true := by
      unfold isAlphabetic
      rw [hm]
      exact inRanges_iff.2 ⟨q, hq, by omega, by omega⟩
    unfold isNameStart
    rw [hascii, halpha, Bool.not_false, Bool.true_and, Bool.or_true]

/-! ### Characters -/

/-- The character `d` is in lower case, and it may stand in names where `c` may. -/
structure Lowers (c d : Char) : Prop where
  isLower : lowerChar d = [d]
  ne_sigma : d ≠ 'Σ'
  nameStart : isNameStart c = true → isNameStart d = true
  nameContinue : isNameContinue c = true → isNameContinue d = true

/-- A character that no run changes and that has no special lower case is in lower case. -/
theorem lowerChar_of_not_contains {c : Char}
    (h : ∀ r ∈ specialRuns ++ lowerRuns, r.contains c.toNat = false) :
    lowerChar c = [c] ∧ c ≠ 'Σ' := by
  have hspecial {d : Char} (hmem : ⟨d.toNat, d.toNat, 1, 0⟩ ∈ specialRuns) : c ≠ d := by
    rintro rfl
    have hc := h _ (List.mem_append_left _ hmem)
    rw [CaseRun.contains_iff.2 ⟨Nat.le_refl _, Nat.le_refl _, Nat.mod_one _⟩] at hc
    cases hc
  refine ⟨?_, hspecial (d := 'Σ') (by simp [specialRuns])⟩
  have hnone : lowerRuns.find? (·.contains c.toNat) = none := by
    rw [List.find?_eq_none]
    intro r hr
    rw [h r (List.mem_append_right _ hr)]
    exact Bool.false_ne_true
  unfold lowerChar
  rw [if_neg (hspecial (d := 'İ') (by simp [specialRuns])), hnone]

theorem exists_lowers {c : Char} (hdot : c ≠ 'İ') (hsigma : c ≠ 'Σ') :
    ∃ d, lowerChar c = [d] ∧ Lowers c d := by
  cases hfind : lowerRuns.find? (·.contains c.toNat) with
  | none =>
    have hlower : lowerChar c = [c] := by
      unfold lowerChar
      rw [if_neg hdot, hfind]
    exact ⟨c, hlower, hlower, hsigma, id, id⟩
  | some r =>
    have hlower : lowerChar c = [Char.ofNat (c.toNat + r.offset).toNat] := by
      unfold lowerChar
      rw [if_neg hdot, hfind]
    have hr := List.mem_of_find?_eq_some hfind
    have hn : r.contains c.toNat = true :=
      List.find?_some (p := fun q : CaseRun => q.contains c.toNat) hfind
    obtain ⟨hlow, hm, hstart⟩ :=
      CaseRun.isNameStart_of_contains (List.all_eq_true.1 lowerRuns_isLettered r hr) hn
    obtain ⟨hsmall, hne⟩ : lowerChar (Char.ofNat (c.toNat + r.offset).toNat) = [_] ∧ _ :=
      lowerChar_of_not_contains fun q hq => by
        rw [hm]
        exact CaseRun.not_contains_of_misses
          (List.all_eq_true.1 (List.all_eq_true.1 lowerRuns_misses r hr) q hq) hlow hn
    exact ⟨_, hlower, hsmall, hne, fun _ => hstart, fun _ => isNameContinue_of_isNameStart hstart⟩

theorem lowers_sigma {d : Char} (h : d = 'σ' ∨ d = 'ς') : Lowers 'Σ' d := by
  obtain ⟨hsmall, hne, hstart⟩ : lowerChar d = [d] ∧ d ≠ 'Σ' ∧ isNameStart d = true := by
    rcases h with rfl | rfl
    · decide +kernel
    · decide +kernel
  exact ⟨hsmall, hne, fun _ => hstart, fun _ => isNameContinue_of_isNameStart hstart⟩

/-! ### Words -/

/-- The characters of a text in lower case. -/
theorem lowers_lowerAfter {cs : List Char} (h : 'İ' ∉ cs) (before : List Char) :
    List.Forall₂ Lowers cs (lowerAfter before cs) := by
  induction cs generalizing before with
  | nil => exact .nil
  | cons c cs ih =>
    obtain ⟨hdot, hrest⟩ := not_or.1 (mt List.mem_cons.2 h)
    have hcs := ih hrest (c :: before)
    rw [lowerAfter]
    split
    · next hsigma =>
      subst hsigma
      split
      · exact .cons (lowers_sigma (.inr rfl)) hcs
      · exact .cons (lowers_sigma (.inl rfl)) hcs
    · next hsigma =>
      obtain ⟨d, hd, hlowers⟩ := exists_lowers (Ne.symm hdot) hsigma
      rw [hd]
      exact .cons hlowers hcs

theorem all_isNameContinue_of_lowers {cs ds : List Char} (h : List.Forall₂ Lowers cs ds)
    (hcs : cs.all isNameContinue = true) : ds.all isNameContinue = true := by
  induction h with
  | nil => rfl
  | cons hd hds ih =>
    obtain ⟨hc, hcs⟩ := Bool.and_eq_true_iff.1 hcs
    exact Bool.and_eq_true_iff.2 ⟨hd.nameContinue hc, ih hcs⟩

/-- A word in lower case is a word. -/
theorem isWordText_lower {cs : List Char} (h : 'İ' ∉ cs) (hcs : isWordText cs = true) :
    isWordText (lower cs) = true := by
  have hlowers : List.Forall₂ Lowers cs (lower cs) := lowers_lowerAfter h []
  generalize lower cs = ds at hlowers
  cases hlowers with
  | nil => exact hcs
  | cons hd hds =>
    obtain ⟨hc, hcs⟩ := Bool.and_eq_true_iff.1 hcs
    exact Bool.and_eq_true_iff.2 ⟨hd.nameStart hc, all_isNameContinue_of_lowers hds hcs⟩

/-- A word in lower case begins with a letter, be it that of a dotted capital. -/
theorem isNameStart_of_mem_head?_lower {cs : List Char} {c : Char} (hcs : isWordText cs = true)
    (h : c ∈ (lower cs).head?) : isNameStart c = true := by
  cases cs with
  | nil => cases h
  | cons d ds =>
    have hd : isNameStart d = true := (Bool.and_eq_true_iff.1 hcs).1
    unfold lower lowerAfter at h
    split at h
    · next hsigma =>
      subst hsigma
      split at h
      · cases h
        exact (lowers_sigma (.inr rfl)).nameStart hd
      · cases h
        exact (lowers_sigma (.inl rfl)).nameStart hd
    · next hsigma =>
      by_cases hdot : d = 'İ'
      · subst hdot
        cases h
        decide
      · obtain ⟨e, he, hlowers⟩ := exists_lowers hdot hsigma
        rw [he] at h
        cases h
        exact hlowers.nameStart hd

/-- The lower case of a character is in the lower case of a text with the character. -/
theorem mem_lowerAfter_of_mem {c d : Char} (hc : c ≠ 'Σ') (hd : d ∈ lowerChar c) {cs : List Char}
    (h : c ∈ cs) (before : List Char) : d ∈ lowerAfter before cs := by
  induction cs generalizing before with
  | nil => cases h
  | cons e cs ih =>
    rw [lowerAfter, List.mem_append]
    rcases List.mem_cons.1 h with rfl | h
    · left
      rwa [if_neg hc]
    · exact .inr (ih h (e :: before))

/-- A dotted capital brings its dot into the lower case. -/
theorem dot_mem_lower {cs : List Char} (h : 'İ' ∈ cs) : '\u0307' ∈ lower cs :=
  mem_lowerAfter_of_mem (by decide) (by decide) h []

/-! ### Lower case twice -/

/-- Nothing changes the character: it is in lower case. -/
def IsSmall (c : Char) : Prop :=
  lowerChar c = [c] ∧ c ≠ 'Σ'

theorem Lowers.isSmall {c d : Char} (h : Lowers c d) : IsSmall d :=
  ⟨h.isLower, h.ne_sigma⟩

theorem isSmall_of_mem_lowerAfter {cs : List Char} {before : List Char} {d : Char}
    (h : d ∈ lowerAfter before cs) : IsSmall d := by
  induction cs generalizing before with
  | nil => cases h
  | cons c cs ih =>
    rw [lowerAfter, List.mem_append] at h
    rcases h with h | h
    · split at h
      · split at h
        · cases List.mem_singleton.1 h
          exact (lowers_sigma (.inr rfl)).isSmall
        · cases List.mem_singleton.1 h
          exact (lowers_sigma (.inl rfl)).isSmall
      · next hsigma =>
        by_cases hdot : c = 'İ'
        · subst hdot
          -- the small letter and the combining dot
          rcases List.mem_pair.1 (show d ∈ ['i', '\u0307'] from h) with rfl | rfl
          · exact ⟨by decide +kernel, by decide⟩
          · exact ⟨by decide +kernel, by decide⟩
        · obtain ⟨e, he, hlowers⟩ := exists_lowers hdot hsigma
          rw [he] at h
          cases List.mem_singleton.1 h
          exact hlowers.isSmall
    · exact ih h

/-- A text in lower case stays as it is. -/
theorem lowerAfter_of_isSmall {cs : List Char} (h : ∀ c ∈ cs, IsSmall c) (before : List Char) :
    lowerAfter before cs = cs := by
  induction cs generalizing before with
  | nil => rfl
  | cons c cs ih =>
    obtain ⟨hlower, hsigma⟩ := h c List.mem_cons_self
    rw [lowerAfter, if_neg hsigma, hlower, ih fun d hd => h d (List.mem_cons_of_mem _ hd),
      List.singleton_append]

/-- Lower case is in lower case. -/
theorem lower_lower (cs : List Char) : lower (lower cs) = lower cs :=
  lowerAfter_of_isSmall (fun _ h => isSmall_of_mem_lowerAfter h) []

theorem lowerString_lowerString (s : String) : lowerString (lowerString s) = lowerString s := by
  unfold lowerString
  rw [String.toList_ofList, lower_lower]

/-! ### One letter -/

theorem lowerChar_ne_nil (c : Char) : lowerChar c ≠ [] := by
  unfold lowerChar
  split
  · exact List.cons_ne_nil _ _
  · split <;> exact List.cons_ne_nil _ _

/-- No character gets lost in lower case. -/
theorem length_le_lowerAfter (before cs : List Char) :
    cs.length ≤ (lowerAfter before cs).length := by
  induction cs generalizing before with
  | nil => exact Nat.le_refl 0
  | cons c cs ih =>
    have hc := List.length_pos_iff.2 (lowerChar_ne_nil c)
    have hcs := ih (c :: before)
    unfold lowerAfter
    rw [List.length_append, List.length_cons]
    split
    · split <;> (rw [List.length_singleton]; omega)
    · omega

/-- No run gives the small letter for a character other than the capital. -/
def IsOnlyCapital (capital small : Char) : Prop :=
  ∀ r ∈ lowerRuns, r.contains ((small.toNat : Int) - r.offset).toNat = true →
    ((small.toNat : Int) - r.offset).toNat = capital.toNat

instance (capital small : Char) : Decidable (IsOnlyCapital capital small) :=
  inferInstanceAs (Decidable (∀ r ∈ lowerRuns, _))

theorem eq_of_ofNat_eq {n : Nat} {c : Char} (hc : c ≠ '\x00') (h : Char.ofNat n = c) :
    n = c.toNat := by
  unfold Char.ofNat at h
  split at h
  · next hn => exact congrArg Char.toNat h
  · exact absurd h.symm hc

theorem eq_of_lowerChar {c capital small : Char} (hzero : small ≠ '\x00')
    (honly : IsOnlyCapital capital small) (h : lowerChar c = [small]) :
    c = small ∨ c = capital := by
  unfold lowerChar at h
  split at h
  · cases h
  · split at h
    · next r hr =>
      have hcontains : r.contains c.toNat = true :=
        List.find?_some (p := fun r : CaseRun => r.contains c.toNat) hr
      have hsum := eq_of_ofNat_eq hzero (List.cons.inj h).1
      have hpositive : small.toNat ≠ 0 := fun hn => hzero (Char.toNat_inj.1 hn)
      have hc : ((small.toNat : Int) - r.offset).toNat = c.toNat := by omega
      have hcapital := honly r (List.mem_of_find?_eq_some hr) (hc ▸ hcontains)
      rw [hc] at hcapital
      exact .inr (Char.toNat_inj.1 hcapital)
    · exact .inl (List.cons.inj h).1

/-- Only a letter, of either case, has its small form as its lower case. -/
theorem eq_of_lower_singleton {cs : List Char} {capital small : Char} (hzero : small ≠ '\x00')
    (hsigma : small ≠ 'σ' ∧ small ≠ 'ς') (honly : IsOnlyCapital capital small)
    (h : lower cs = [small]) : cs = [small] ∨ cs = [capital] := by
  have hlength := length_le_lowerAfter [] cs
  change cs.length ≤ (lower cs).length at hlength
  rw [h] at hlength
  match cs, h, hlength with
  | [c], h, _ =>
    unfold lower at h
    simp only [lowerAfter, List.append_nil] at h
    split at h
    · split at h
      · exact absurd (List.cons.inj h).1.symm hsigma.2
      · exact absurd (List.cons.inj h).1.symm hsigma.1
    · rcases eq_of_lowerChar hzero honly h with rfl | rfl
      · exact .inl rfl
      · exact .inr rfl

end Formulary
