import Formulary.Proofs.Grammar.Cutting
import Formulary.Proofs.Grammar.NumberTokens
import Formulary.Proofs.Grammar.Unfused
import Formulary.Proofs.Scan.Tiling

/-!
# Blanks put between tokens

Blanks that are put where two tokens meet change no token but for its place: what comes after them
moves on by their length. They cannot join what was apart, and they separate nothing that belongs
together, for no lexeme and no complex numeral lies across a byte at which tokens meet.

* `IsBoundary s p`: two tokens of the text meet at a byte, blanks counted as tokens, or it is the
  start or the end of the text.
* `Token.shifted`, `Placed.shifted`: what starts at a byte or after it is moved.
* `Placed.Clear`: a lexeme does not lie across a byte.
* `exists_cut`: both sides of a boundary are texts with lexemes of their own.
* `placed_lexemes_gap`, `fusePlaced_shifted`, `tokensAfter_shifted`: lexemes are moved, and so is
  what is fused and what becomes of it.
* **`tokenize_gap`**: the tokens of a text with blanks put at a boundary.
-/

namespace Formulary

open Text

/-- Two tokens of the text meet at the byte, blanks counted, or the text starts or ends there. -/
def IsBoundary (s : String) (p : Nat) : Prop :=
  p = 0 ∨ p = s.utf8ByteSize ∨
    ∃ us t u vs, tokensWithBlanks s = us ++ t :: u :: vs ∧ t.stop = p ∧ u.start = p

/-- A token that starts at the byte `p` or after it is moved on by `n` bytes. -/
def Token.shifted (p n : Nat) (t : Token) : Token :=
  if p ≤ t.start then ⟨t.kind, t.text, t.start + n, t.stop + n⟩ else t

namespace Placed

/-- A lexeme that starts at the byte `p` or after it is moved on by `n` bytes. -/
def shifted (p n : Nat) (l : Placed) : Placed :=
  ⟨l.lexeme, if p ≤ l.start then l.start + n else l.start⟩

/-- The lexeme ends before the byte or starts there or after it. -/
def Clear (p : Nat) (l : Placed) : Prop :=
  l.stop ≤ p ∨ p ≤ l.start

end Placed

/-! ### Both sides of a boundary -/

/-- Tokens meet where lexemes do. -/
theorem IsBoundary.exists_fuse {s : String} {p : Nat} (h : IsBoundary s p) :
    ∃ ls rs, fuse true (lexemes s.toList) = ls ++ rs ∧
      byteLength (ls.flatMap Lexeme.chars) = p := by
  rcases h with rfl | rfl | ⟨us, t, u, vs, htokens, -, rfl⟩
  · exact ⟨[], _, rfl, rfl⟩
  · refine ⟨_, [], (List.append_nil _).symm, ?_⟩
    rw [flatMap_chars_fuse, flatMap_chars_lexemes, byteLength_toList]
  · rw [List.append_cons] at htokens
    obtain ⟨before, l, after, last, hfuse, htoken⟩ := exists_of_classify htokens
    refine ⟨before, l :: after, hfuse, ?_⟩
    rcases htoken with rfl | ⟨rfl, -⟩
    · exact (Nat.zero_add _).symm
    · exact (Nat.zero_add _).symm

/-- Where fused lexemes meet there lexemes met before they were fused. -/
theorem exists_of_fuse_append {opens : Bool} {ls before after : List Lexeme}
    (h : fuse opens ls = before ++ after) : ∃ before' after', ls = before' ++ after' ∧
      before'.flatMap Lexeme.chars = before.flatMap Lexeme.chars := by
  cases after with
  | nil =>
    refine ⟨ls, [], (List.append_nil ls).symm, ?_⟩
    rw [← flatMap_chars_fuse opens, h, List.append_nil]
  | cons l after =>
    rcases exists_of_fuse h with ⟨before', after', hls, hchars⟩ |
      ⟨before', a, p, b, after', hls, hchars, -⟩
    · exact ⟨before', l :: after', hls, hchars⟩
    · exact ⟨before', a :: p :: b :: after', hls, hchars⟩

/-- A text falls into two at a boundary, and its lexemes, fused or not, are those of both. -/
theorem IsBoundary.exists_cut {s : String} {p : Nat} (h : IsBoundary s p) :
    ∃ cs ds ls rs, s.toList = cs ++ ds ∧ byteLength cs = p ∧
      lexemes (cs ++ ds) = lexemes cs ++ lexemes ds ∧
      fuse true (lexemes (cs ++ ds)) = ls ++ rs ∧ ls.flatMap Lexeme.chars = cs := by
  obtain ⟨ls, rs, hfuse, hbytes⟩ := h.exists_fuse
  have htext : s.toList = ls.flatMap Lexeme.chars ++ rs.flatMap Lexeme.chars := by
    rw [← List.flatMap_append, ← hfuse, flatMap_chars_fuse, flatMap_chars_lexemes]
  rw [htext] at hfuse
  obtain ⟨before, after, hlexemes, hchars⟩ := exists_of_fuse_append hfuse
  obtain ⟨hleft, hright⟩ := lexemes_cut hlexemes hchars
  exact ⟨_, _, ls, rs, htext, hbytes, by rw [hlexemes, hleft, hright], hfuse, rfl⟩

/-! ### Lexemes are moved -/

/-- Lexemes end before their text does. -/
theorem stop_le_of_mem_placed {pos : Nat} {ls : List Lexeme} {l : Placed} (h : l ∈ placed pos ls) :
    l.stop ≤ pos + byteLength (ls.flatMap Lexeme.chars) := by
  obtain ⟨before, after, hls, hstart⟩ := exists_of_mem_placed h
  rw [Placed.stop, hstart, hls, List.flatMap_append, List.flatMap_cons, byteLength_append,
    byteLength_append]
  omega

/-- No lexeme lies across the byte where one list of lexemes ends and another one starts. -/
theorem clear_of_mem_placed {pos : Nat} {ls rs : List Lexeme} {l : Placed}
    (h : l ∈ placed pos (ls ++ rs)) : l.Clear (pos + byteLength (ls.flatMap Lexeme.chars)) := by
  rw [placed_append] at h
  rcases List.mem_append.1 h with h | h
  · exact .inl (stop_le_of_mem_placed h)
  · exact .inr (le_start_of_mem_placed h)

theorem map_shifted_placed {p pos : Nat} (n : Nat) (hpos : p ≤ pos) (ls : List Lexeme) :
    (placed pos ls).map (Placed.shifted p n) = placed (pos + n) ls := by
  induction ls generalizing pos with
  | nil => rfl
  | cons l ls ih =>
    have ih := ih (Nat.le_add_right_of_le hpos : p ≤ pos + byteLength l.chars)
    rw [Nat.add_right_comm] at ih
    cases hblank : l.cls == .blank with
    | true => rw [placed_blank _ _ hblank, placed_blank _ _ hblank, ih]
    | false =>
      rw [placed_cons _ _ hblank, placed_cons _ _ hblank, List.map_cons, ih, Placed.shifted,
        if_pos hpos]

/-- What ends before the byte stays. -/
theorem shifted_of_stop_le {p : Nat} (n : Nat) {l : Placed} (hl : l.lexeme.chars ≠ [])
    (h : l.stop ≤ p) : l.shifted p n = l := by
  have hpos := byteLength_pos hl
  have hstart : ¬ p ≤ l.start := by
    unfold Placed.stop at h
    omega
  rw [Placed.shifted, if_neg hstart]

/-- Blanks between two texts that have lexemes of their own move the lexemes of the second one. -/
theorem placed_lexemes_gap {cs gs ds : List Char} (hg : ∀ c ∈ gs, isBlank c = true)
    (hcut : lexemes (cs ++ ds) = lexemes cs ++ lexemes ds) : placed 0 (lexemes (cs ++ gs ++ ds)) =
      (placed 0 (lexemes (cs ++ ds))).map (Placed.shifted (byteLength cs) (byteLength gs)) := by
  have hleft : (placed 0 (lexemes cs)).map (Placed.shifted (byteLength cs) (byteLength gs)) =
      placed 0 (lexemes cs) := by
    refine (List.map_congr_left fun l hl => ?_).trans (List.map_id _)
    have hstop := stop_le_of_mem_placed hl
    rw [flatMap_chars_lexemes, Nat.zero_add] at hstop
    exact shifted_of_stop_le _ (chars_ne_nil_of_mem_lexemes (mem_placed hl).1) hstop
  have hright := map_shifted_placed (byteLength gs) (Nat.le_refl (byteLength cs)) (lexemes ds)
  have hmoved : (placed 0 (lexemes (cs ++ ds))).map
      (Placed.shifted (byteLength cs) (byteLength gs)) =
        placed 0 (lexemes cs) ++ placed (byteLength cs + byteLength gs) (lexemes ds) := by
    rw [hcut, placed_append, flatMap_chars_lexemes, Nat.zero_add, List.map_append, hleft, hright]
  rw [hmoved]
  cases gs with
  | nil =>
    rw [List.append_nil, hcut, placed_append, flatMap_chars_lexemes, Nat.zero_add]
    rfl
  | cons g gs =>
    have hblank : ∀ c ∈ (g :: gs ++ ds).head?, isBlank c = true := by
      intro c hc
      cases hc
      exact hg g List.mem_cons_self
    rw [List.append_assoc, placed_lexemes_append 0 hblank, placed_lexemes_blanks hg, Nat.zero_add]

/-! ### What is fused is moved -/

section Shifted

variable {p : Nat} (n : Nat)

theorem closesPlaced_map_shifted (ls : List Placed) :
    closesPlaced (ls.map (Placed.shifted p n)) = closesPlaced ls := by
  cases ls <;> rfl

/-- Lexemes that touch after they are moved did so before. -/
theorem touches_of_shifted {l m : Placed} (hl : l.lexeme.chars ≠ []) (hclear : l.Clear p)
    (h : (l.shifted p n).stop = (m.shifted p n).start) : l.stop = m.start := by
  have hpos := byteLength_pos hl
  simp only [Placed.Clear, Placed.shifted, Placed.stop] at hclear h ⊢
  split at h <;> split at h <;> omega

theorem joinable_of_shifted {a b c : Placed} (ha : a.lexeme.chars ≠ []) (hb : b.lexeme.chars ≠ [])
    (hclear : a.Clear p) (hclear' : b.Clear p)
    (h : (a.shifted p n).joinable (b.shifted p n) (c.shifted p n) = true) :
    a.joinable b c = true := by
  unfold Placed.joinable at h ⊢
  simp only [Bool.and_eq_true, beq_iff_eq] at h ⊢
  obtain ⟨⟨hparts, htouch⟩, htouch'⟩ := h
  exact ⟨⟨hparts, touches_of_shifted n ha hclear htouch⟩,
    touches_of_shifted n hb hclear' htouch'⟩

/-- The parts of a complex numeral are moved together. -/
theorem join_shifted {a b c : Placed} (hb : b.lexeme.chars ≠ []) (hc : c.lexeme.chars ≠ [])
    (hjoin : a.joinable b c = true) (hclear : (a.join b c).Clear p) :
    (a.shifted p n).joinable (b.shifted p n) (c.shifted p n) = true ∧
      (a.shifted p n).join (b.shifted p n) (c.shifted p n) = (a.join b c).shifted p n := by
  refine ⟨?_, rfl⟩
  have hb := byteLength_pos hb
  have hc := byteLength_pos hc
  unfold Placed.joinable at hjoin ⊢
  simp only [Bool.and_eq_true, beq_iff_eq] at hjoin ⊢
  obtain ⟨⟨hparts, htouch⟩, htouch'⟩ := hjoin
  simp only [Placed.Clear, Placed.join, Placed.stop, byteLength_append] at hclear htouch htouch'
  refine ⟨⟨hparts, ?_⟩, ?_⟩
  · simp only [Placed.shifted, Placed.stop]
    split <;> split <;> omega
  · simp only [Placed.shifted, Placed.stop]
    split <;> split <;> omega

/-- Moved lexemes are fused as they were before if none of them lies across the byte, be it before
they are fused or after. -/
theorem fusePlaced_shifted {opens : Bool} {ls : List Placed}
    (hls : ∀ l ∈ ls, l.lexeme.chars ≠ [] ∧ l.Clear p)
    (hfused : ∀ l ∈ fusePlaced opens ls, l.Clear p) :
    fusePlaced opens (ls.map (Placed.shifted p n)) =
      (fusePlaced opens ls).map (Placed.shifted p n) := by
  fun_induction fusePlaced opens ls with
  | case1 opens a b c ls hfuse ih =>
    have ih := ih (fun l hl => hls l (by simp [hl])) fun l hl => hfused l (by simp [hl])
    obtain ⟨hfuse, hcloses⟩ := Bool.and_eq_true_iff.1 hfuse
    obtain ⟨rfl, hjoin⟩ := Bool.and_eq_true_iff.1 hfuse
    obtain ⟨hjoin', hmoved⟩ := join_shifted n (hls b (by simp)).1 (hls c (by simp)).1 hjoin
      (hfused _ List.mem_cons_self)
    rw [List.map_cons, List.map_cons, List.map_cons,
      fusePlaced_join hjoin' ((closesPlaced_map_shifted n ls).trans hcloses), ih, hmoved,
      List.map_cons]
  | case2 opens a b c ls hfuse ih =>
    have ih := ih (fun l hl => hls l (List.mem_cons_of_mem _ hl))
      fun l hl => hfused l (List.mem_cons_of_mem _ hl)
    rw [List.map_cons, List.map_cons (l := fusePlaced _ _), ← ih]
    refine fusePlaced_cons fun b' c' rest hrest hopens hjoin => ?_
    rw [List.map_cons, List.map_cons] at hrest
    obtain ⟨rfl, htail⟩ := List.cons.inj hrest
    obtain ⟨rfl, rfl⟩ := List.cons.inj htail
    obtain ⟨ha, haclear⟩ := hls a (by simp)
    obtain ⟨hb, hbclear⟩ := hls b (by simp)
    have hjoin := joinable_of_shifted n ha hb haclear hbclear hjoin
    rw [closesPlaced_map_shifted, Bool.eq_false_iff]
    intro hcloses
    exact hfuse (by rw [hopens, hjoin, hcloses]; rfl)
  | case3 opens ls hshort =>
    refine fusePlaced_of_short ?_
    rw [List.length_map]
    rcases ls with _ | ⟨a, _ | ⟨b, _ | ⟨c, ls⟩⟩⟩
    · simp
    · simp
    · simp
    · exact absurd rfl (hshort a b c ls)

/-! ### Tokens are moved -/

theorem token_shifted (last : Option TokenKind) (l : Placed) :
    (l.shifted p n).token last = (l.token last).shifted p n := by
  by_cases h : p ≤ l.start
  · rw [Placed.shifted, if_pos h, Token.shifted, if_pos (show p ≤ (l.token last).start from h)]
    show (⟨_, _, _, l.start + n + byteLength l.lexeme.chars⟩ : Token) = _
    rw [Nat.add_right_comm]
    rfl
  · rw [Placed.shifted, if_neg h, Token.shifted, if_neg (show ¬ p ≤ (l.token last).start from h)]

theorem impliedProduct_shifted (l : Placed) :
    impliedProduct (l.shifted p n).start = (impliedProduct l.start).shifted p n := by
  by_cases h : p ≤ l.start
  · rw [Placed.shifted, if_pos h, Token.shifted, if_pos (show p ≤ (impliedProduct _).start from h)]
    rfl
  · rw [Placed.shifted, if_neg h, Token.shifted, if_neg (show ¬ p ≤ (impliedProduct _).start from h)]

/-- What lexemes become does not hang on where they stand. -/
theorem tokensAfter_shifted (last : Option TokenKind) (ls : List Placed) :
    tokensAfter last (ls.map (Placed.shifted p n)) =
      (tokensAfter last ls).map (Token.shifted p n) := by
  induction ls generalizing last with
  | nil => rfl
  | cons l ls ih =>
    simp only [List.map_cons, tokensAfter, ih, token_shifted, impliedProduct_shifted]
    show (if l.lexeme.startsValue && last.any TokenKind.endsValue then _ else _) = _
    split
    · rfl
    · rfl

end Shifted

/-! ### Texts -/

/-- Blanks between tokens do not matter. A text falls into two at every boundary of its tokens, and
whatever blanks are put there, it has the tokens it had: the same kinds and texts in the same order,
implied multiplications included. Those that start at the boundary or after it are moved on by as
many bytes as the blanks have, and all others stay where they are. -/
theorem tokenize_gap {s : String} {p : Nat} (hp : IsBoundary s p) :
    ∃ b a : String, s = b ++ a ∧ b.utf8ByteSize = p ∧
      ∀ g : String, (∀ c ∈ g.toList, isBlank c = true) →
        tokenize (b ++ g ++ a) = (tokenize s).map (Token.shifted p g.utf8ByteSize) := by
  obtain ⟨cs, ds, ls, rs, htext, hbytes, hcut, hfuse, hls⟩ := hp.exists_cut
  refine ⟨String.ofList cs, String.ofList ds, ?_, ?_, fun g hg => ?_⟩
  · rw [← String.ofList_append, ← htext, String.ofList_toList]
  · rw [← byteLength_toList, String.toList_ofList, hbytes]
  have hchars : (String.ofList cs ++ g ++ String.ofList ds).toList = cs ++ g.toList ++ ds := by
    simp
  have hunfused : ∀ l ∈ writtenUnfused s, l.lexeme.chars ≠ [] ∧ l.Clear p := by
    intro l hl
    refine ⟨(isSimple_of_mem_writtenUnfused hl).2, ?_⟩
    rw [writtenUnfused, htext, hcut] at hl
    have hclear := clear_of_mem_placed hl
    rwa [flatMap_chars_lexemes, hbytes, Nat.zero_add] at hclear
  have hfused : ∀ l ∈ fusePlaced true (writtenUnfused s), l.Clear p := by
    intro l hl
    rw [← written_eq, written, htext, hfuse] at hl
    have hclear := clear_of_mem_placed hl
    rwa [hls, hbytes, Nat.zero_add] at hclear
  have hmoved : writtenUnfused (String.ofList cs ++ g ++ String.ofList ds) =
      (writtenUnfused s).map (Placed.shifted p g.utf8ByteSize) := by
    rw [writtenUnfused, writtenUnfused, hchars, htext, placed_lexemes_gap hg hcut, hbytes,
      byteLength_toList]
  rw [tokenize_eq, tokenize_eq, written_eq, written_eq, hmoved,
    fusePlaced_shifted _ hunfused hfused, tokensAfter_shifted]

/-- A numeral looks at the name after it, and yet a blank between them makes no difference. -/
theorem tokenize_gap_unit : IsBoundary "2ix" 1 ∧ ∃ b a : String, "2ix" = b ++ a ∧
    b.utf8ByteSize = 1 ∧ tokenize (b ++ " " ++ a) =
      [⟨.number, "2", 0, 1⟩, ⟨.operator .mul, "*", 2, 2⟩, ⟨.name, "ix", 2, 4⟩] := by
  have hp : IsBoundary "2ix" 1 := by
    refine .inr (.inr ⟨[], ⟨.number, "2", 0, 1⟩, ⟨.operator .mul, "*", 1, 1⟩,
      [⟨.name, "ix", 1, 3⟩], ?_, rfl, rfl⟩)
    decide +kernel
  obtain ⟨b, a, htext, hbytes, hgap⟩ := tokenize_gap hp
  refine ⟨hp, b, a, htext, hbytes, ?_⟩
  rw [hgap " " (List.all_eq_true.1 (by decide +kernel))]
  decide +kernel

end Formulary
