import Mathlib.Data.String.Basic
import Formulary.Proofs.Grammar.Fusing
import Formulary.Proofs.Printing.Lexing
import Formulary.Token.Scanner

/-!
# Places between characters

Where a scanner stands, a text falls into what is read and what is not. What is looked up by bytes
there is the first character of what is not read: of a character that is not ASCII the first byte is
none of the characters that are looked for by bytes.

* `TextAt s i rest`: the place `i` lies between two characters, and `rest` follows it.
* `TextAt.advance`: the place after some characters more.
* `TextAt.charAt?_eq`, `TextAt.any_byteAt?`: looking up a character and a byte.
* `TextAt.slice_eq`: the text between two places.
* `TextAt.skipDigits_eq`, `TextAt.skipWhile_eq`: where loops end.
* `TextAt.skipWhile`, `TextAt.slice_skipWhile`: the text after a loop, and the text it passes.
-/

namespace Formulary

open Text

/-- The place lies between two characters of the text, and the characters `rest` follow it. -/
def TextAt (s : String) (i : Nat) (rest : List Char) : Prop :=
  ∃ before, s.toList = before ++ rest ∧ i = byteLength before

theorem byteLength_eq_utf8Len (cs : List Char) : byteLength cs = String.utf8Len cs := by
  induction cs with
  | nil => rfl
  | cons c cs ih =>
    rw [String.utf8Len_cons, ← ih]
    exact Nat.add_comm _ _

theorem byteLength_toList (s : String) : byteLength s.toList = s.utf8ByteSize := by
  rw [byteLength_eq_utf8Len, String.utf8Len_toList]

/-! ### Bytes -/

theorem toNat_ofUInt8 (b : UInt8) : (Char.ofUInt8 b).toNat = b.toNat :=
  UInt8.toNat_toUInt32 b

/-- The first byte of an ASCII character is its number, and no other character begins with such a
byte. -/
theorem exists_utf8EncodeChar (c : Char) : ∃ b bs, String.utf8EncodeChar c = b :: bs ∧
    (isAscii c = true → Char.ofUInt8 b = c) ∧
    (isAscii c = false → isAscii (Char.ofUInt8 b) = false) := by
  have hascii : isAscii c = true ↔ c.val.toNat ≤ 127 := by
    rw [isAscii, decide_eq_true_iff, Nat.lt_succ_iff]
    rfl
  have hlead {b : UInt8} (hb : 128 ≤ b.toNat) : isAscii (Char.ofUInt8 b) = false := by
    rw [isAscii, decide_eq_false_iff_not, toNat_ofUInt8]
    omega
  unfold String.utf8EncodeChar
  by_cases h₁ : c.val.toNat ≤ 127
  · refine ⟨_, _, if_pos h₁, fun _ => Char.ext ?_, fun h => ?_⟩
    · refine UInt32.toNat_inj.1 ?_
      show (UInt8.ofNat c.val.toNat).toUInt32.toNat = _
      rw [UInt8.toNat_toUInt32, UInt8.toNat_ofNat', Nat.mod_eq_of_lt (by omega)]
    · rw [hascii.2 h₁] at h
      exact absurd h.symm Bool.false_ne_true
  · have hnot : isAscii c ≠ true := fun h => h₁ (hascii.1 h)
    have hmod {n m : Nat} (hn : n + 128 ≤ m) (hm : m < 256) :
        128 ≤ (UInt8.ofNat m).toNat := by
      rw [UInt8.toNat_ofNat', Nat.mod_eq_of_lt (by omega)]
      omega
    simp only [if_neg h₁]
    split
    · exact ⟨_, _, rfl, fun h => absurd h hnot, fun _ => hlead (hmod (n := 64) (by omega) (by omega))⟩
    · split
      · exact ⟨_, _, rfl, fun h => absurd h hnot,
          fun _ => hlead (hmod (n := 96) (by omega) (by omega))⟩
      · exact ⟨_, _, rfl, fun h => absurd h hnot,
          fun _ => hlead (hmod (n := 112) (by omega) (by omega))⟩

theorem length_flatMap_utf8EncodeChar (cs : List Char) :
    (cs.flatMap String.utf8EncodeChar).length = byteLength cs := by
  induction cs with
  | nil => rfl
  | cons c cs ih =>
    rw [List.flatMap_cons, List.length_append, ih, String.length_utf8EncodeChar]
    rfl

/-! ### The rest of a text -/

namespace TextAt

variable {s : String} {i : Nat} {rest cs : List Char} {c : Char}

theorem start (s : String) : TextAt s 0 s.toList :=
  ⟨[], rfl, rfl⟩

theorem advance (h : TextAt s i (cs ++ rest)) : TextAt s (i + byteLength cs) rest := by
  obtain ⟨before, hs, rfl⟩ := h
  exact ⟨before ++ cs, by rw [hs, List.append_assoc], (byteLength_append _ _).symm⟩

theorem add_byteLength (h : TextAt s i rest) : i + byteLength rest = s.utf8ByteSize := by
  obtain ⟨before, hs, rfl⟩ := h
  rw [← byteLength_append, ← hs, byteLength_toList]

theorem isValid (h : TextAt s i rest) : String.Pos.Raw.IsValid s ⟨i⟩ := by
  obtain ⟨before, hs, rfl⟩ := h
  refine String.Pos.Raw.isValid_iff_exists_take_toList.2 ⟨before.length, ?_⟩
  rw [hs, List.take_left, String.utf8ByteSize_ofList, byteLength_eq_utf8Len]

theorem charAt?_eq (h : TextAt s i rest) : charAt? s i = rest.head? := by
  obtain ⟨before, hs, rfl⟩ := h
  unfold charAt?
  rw [← String.ofList_toList (s := s), hs, byteLength_eq_utf8Len]
  exact String.get?_of_valid before rest

theorem slice_eq (h : TextAt s i (cs ++ rest)) :
    slice s i (i + byteLength cs) = String.ofList cs := by
  obtain ⟨before, hs, rfl⟩ := h
  unfold slice
  rw [← String.ofList_toList (s := s), hs, byteLength_eq_utf8Len, byteLength_eq_utf8Len,
    ← List.append_assoc]
  exact String.extract_of_valid before cs rest

/-- Looking for an ASCII character by bytes is looking for it by characters. -/
theorem any_byteAt? {p : Char → Bool} (hp : ∀ c, p c = true → isAscii c = true)
    (h : TextAt s i rest) : (byteAt? s i).any p = rest.head?.any p := by
  obtain ⟨before, hs, rfl⟩ := h
  have hbytes : s.toByteArray.data[byteLength before]? =
      (rest.flatMap String.utf8EncodeChar)[0]? := by
    rw [← String.ofList_toList (s := s), hs, String.toByteArray_ofList]
    unfold List.utf8Encode
    rw [List.data_toByteArray, List.getElem?_toArray, List.flatMap_append,
      List.getElem?_append_right (by rw [length_flatMap_utf8EncodeChar]),
      length_flatMap_utf8EncodeChar, Nat.sub_self]
  unfold byteAt?
  rw [hbytes]
  cases rest with
  | nil => rfl
  | cons c cs =>
    obtain ⟨b, bs, hb, hascii, hother⟩ := exists_utf8EncodeChar c
    rw [List.flatMap_cons, hb]
    show p (Char.ofUInt8 b) = p c
    cases hc : isAscii c with
    | true => rw [hascii hc]
    | false =>
      have hpc : p c = false := Bool.eq_false_iff.2 fun h => by
        rw [hp c h] at hc
        cases hc
      have hpb : p (Char.ofUInt8 b) = false := Bool.eq_false_iff.2 fun h => by
        have hb := hp _ h
        rw [hother hc] at hb
        cases hb
      rw [hpc, hpb]

/-! ### Loops -/

theorem pos_lt (h : TextAt s i (c :: cs)) : i < s.utf8ByteSize := by
  have hsize := h.add_byteLength
  have hc := byteLength_pos (List.cons_ne_nil c cs)
  omega

theorem tail (h : TextAt s i (c :: cs)) : TextAt s (i + c.utf8Size) cs := by
  have hcons : TextAt s i ([c] ++ cs) := h
  exact hcons.advance

theorem slice_head (h : TextAt s i (c :: cs)) :
    slice s i (i + c.utf8Size) = String.ofList [c] := by
  have hcons : TextAt s i ([c] ++ cs) := h
  exact hcons.slice_eq

theorem skipWhile_eq (p : Char → Bool) (h : TextAt s i rest) :
    skipWhile p s i = i + byteLength (rest.takeWhile p) := by
  induction rest generalizing i with
  | nil =>
    have hend : i = s.utf8ByteSize := h.add_byteLength
    rw [skipWhile, dif_neg (by omega)]
    rfl
  | cons c cs ih =>
    rw [skipWhile, dif_pos h.pos_lt, h.charAt?_eq]
    show (if p c then skipWhile p s (i + c.utf8Size) else i) = _
    by_cases hp : p c = true
    · rw [if_pos hp, ih h.tail, List.takeWhile_cons_of_pos hp, Nat.add_assoc]
      rfl
    · rw [if_neg hp, List.takeWhile_cons_of_neg hp]
      rfl

theorem skipWhile (p : Char → Bool) (h : TextAt s i rest) :
    TextAt s (Formulary.skipWhile p s i) (rest.dropWhile p) := by
  rw [h.skipWhile_eq]
  rw [← List.takeWhile_append_dropWhile (p := p) (l := rest)] at h
  exact h.advance

theorem slice_skipWhile (p : Char → Bool) (h : TextAt s i rest) :
    slice s i (Formulary.skipWhile p s i) = String.ofList (rest.takeWhile p) := by
  rw [h.skipWhile_eq]
  rw [← List.takeWhile_append_dropWhile (p := p) (l := rest)] at h
  exact h.slice_eq

end TextAt

/-! ### Digits -/

theorem isAscii_of_isDigit {c : Char} (h : isDigit c = true) : isAscii c = true := by
  have hle := (isDigit_iff.1 h).2
  rw [isAscii, decide_eq_true_iff]
  omega

theorem utf8Size_of_isAscii {c : Char} (h : isAscii c = true) : c.utf8Size = 1 := by
  rw [isAscii, decide_eq_true_iff] at h
  rw [Char.utf8Size_eq_one_iff, UInt32.le_iff_toNat_le]
  exact Nat.le_of_lt_succ h

namespace TextAt

variable {s : String} {i : Nat} {rest cs : List Char} {c : Char}

/-- An ASCII character is one byte long. -/
theorem tail_of_isAscii (h : TextAt s i (c :: cs)) (hc : isAscii c = true) :
    TextAt s (i + 1) cs := by
  have htail := h.tail
  rwa [utf8Size_of_isAscii hc] at htail

theorem isDigitAt_eq (h : TextAt s i rest) : isDigitAt s i = startsDigit rest := by
  unfold isDigitAt
  rw [h.any_byteAt? fun c => isAscii_of_isDigit]
  cases rest with
  | nil => rfl
  | cons c cs => rfl

theorem skipDigits_eq (h : TextAt s i rest) :
    skipDigits s i = i + byteLength (takeDigits rest) := by
  induction rest generalizing i with
  | nil =>
    have hend : i = s.utf8ByteSize := h.add_byteLength
    rw [skipDigits, dif_neg (by omega)]
    rfl
  | cons c cs ih =>
    rw [skipDigits, dif_pos h.pos_lt, h.isDigitAt_eq]
    show (if isDigit c then skipDigits s (i + 1) else i) = _
    unfold takeDigits at ih ⊢
    by_cases hc : isDigit c = true
    · have hascii := isAscii_of_isDigit hc
      rw [if_pos hc, ih (h.tail_of_isAscii hascii), List.takeWhile_cons_of_pos hc]
      show _ = i + (c.utf8Size + byteLength (cs.takeWhile isDigit))
      rw [utf8Size_of_isAscii hascii, Nat.add_assoc]
    · rw [if_neg hc, List.takeWhile_cons_of_neg hc]
      rfl

end TextAt

end Formulary
