import Formulary.Proofs.Parse.Errors
import Formulary.Proofs.Scan.Calls

/-!
# Readings tile the text

The tokens that are read, implied multiplications left out, lie one after the other and cover the
text. An implied multiplication takes a reading without taking any of the text, but a value follows
it, so that the text is read after two readings for each of its characters at most.

* `Token.isImplied`: an implied multiplication.
* `Tiles i ts j`: the tokens tile the bytes from `i` up to `j`.
* `exists_of_classify`: every token is that of a lexeme, or the multiplication before it.
* `tiles_classify`, `exists_of_isImplied`, `length_classify_le`: the tokens of lexemes.
* `Scanner.tokens`: the tokens of the first readings.
* **`scanner_tiles`**: the readings of every text.
-/

namespace Formulary

/-- The token is a multiplication that is not written. -/
def Token.isImplied (t : Token) : Bool :=
  t == impliedProduct t.start

/-- The tokens lie one after the other, none of them empty, from the byte `i` up to the byte `j`. -/
def Tiles (i : Nat) : List Token → Nat → Prop
  | [], j => i = j
  | t :: ts, j => t.start = i ∧ t.start < t.stop ∧ Tiles t.stop ts j

/-! ### The tokens of lexemes -/

theorem isImplied_impliedProduct (pos : Nat) : (impliedProduct pos).isImplied = true :=
  beq_self_eq_true _

/-- A token of some text is written. -/
theorem not_isImplied_of_lt {t : Token} (h : t.start < t.stop) : t.isImplied = false := by
  refine beq_false_of_ne fun heq => ?_
  have hstop : t.stop = t.start := congrArg Token.stop heq
  omega

/-- The token of a lexeme is not empty. -/
theorem lt_stop_token {l : Lexeme} (h : l.chars ≠ []) (last : Option TokenKind) (pos : Nat) :
    pos < (Placed.token last ⟨l, pos⟩).stop := by
  have hpos := byteLength_pos h
  show pos < pos + byteLength l.chars
  omega

/-- The first token of lexemes is that of the first lexeme, or the multiplication before it. -/
theorem classify_cons (last : Option TokenKind) (pos : Nat) (l : Lexeme) (ls : List Lexeme) :
    ∃ last₁ last₂, classify last pos (l :: ls) =
        Placed.token last₁ ⟨l, pos⟩ :: classify last₂ (pos + byteLength l.chars) ls ∨
      classify last pos (l :: ls) = impliedProduct pos ::
        Placed.token last₁ ⟨l, pos⟩ :: classify last₂ (pos + byteLength l.chars) ls := by
  simp only [classify]
  split
  · next hblank =>
    have hkind : l.kind last = .blank := by
      unfold Lexeme.kind
      rw [eq_of_beq hblank]
    refine ⟨last, last, .inl ?_⟩
    rw [Placed.token, hkind]
    rfl
  · split
    · exact ⟨_, _, .inr rfl⟩
    · exact ⟨_, _, .inl rfl⟩

/-- Every token is that of a lexeme at its place, or the multiplication before that token. -/
theorem exists_of_classify {last : Option TokenKind} {pos : Nat} {ls : List Lexeme}
    {us vs : List Token} {t : Token} (h : classify last pos ls = us ++ t :: vs) :
    ∃ before l after last', ls = before ++ l :: after ∧
      (t = Placed.token last' ⟨l, pos + byteLength (before.flatMap Lexeme.chars)⟩ ∨
        t = impliedProduct (pos + byteLength (before.flatMap Lexeme.chars)) ∧ ∃ ws,
          vs = Placed.token last' ⟨l, pos + byteLength (before.flatMap Lexeme.chars)⟩ :: ws) := by
  induction ls generalizing last pos us with
  | nil => simp [classify] at h
  | cons l ls ih =>
    obtain ⟨last₁, last₂, hcons⟩ := classify_cons last pos l ls
    have hown {us : List Token} (h : Placed.token last₁ ⟨l, pos⟩ ::
        classify last₂ (pos + byteLength l.chars) ls = us ++ t :: vs) :
        ∃ before l' after last', l :: ls = before ++ l' :: after ∧
          (t = Placed.token last' ⟨l', pos + byteLength (before.flatMap Lexeme.chars)⟩ ∨
            t = impliedProduct (pos + byteLength (before.flatMap Lexeme.chars)) ∧ ∃ ws,
              vs = Placed.token last' ⟨l', pos + byteLength (before.flatMap Lexeme.chars)⟩ ::
                ws) := by
      cases us with
      | nil => exact ⟨[], l, ls, last₁, rfl, .inl (List.cons.inj h).1.symm⟩
      | cons u us =>
        obtain ⟨before, l', after, last', rfl, htoken⟩ := ih (List.cons.inj h).2
        refine ⟨l :: before, l', after, last', rfl, ?_⟩
        rwa [List.flatMap_cons, byteLength_append, ← Nat.add_assoc]
    rcases hcons with hcons | hcons
    · exact hown (hcons.symm.trans h)
    · rw [hcons] at h
      cases us with
      | nil =>
        obtain ⟨rfl, rfl⟩ := List.cons.inj h
        exact ⟨[], l, ls, last₁, rfl, .inr ⟨rfl, _, rfl⟩⟩
      | cons u us => exact hown (List.cons.inj h).2

section Classify

variable {ls : List Lexeme} (hls : ∀ l ∈ ls, l.chars ≠ [])

include hls

theorem tiles_classify (last : Option TokenKind) (pos : Nat) :
    Tiles pos ((classify last pos ls).filter (!·.isImplied))
      (pos + byteLength (ls.flatMap Lexeme.chars)) := by
  induction ls generalizing last pos with
  | nil => exact rfl
  | cons l ls ih =>
    have hlt := fun last => lt_stop_token (hls l List.mem_cons_self) last pos
    have ih := ih fun l hl => hls l (List.mem_cons_of_mem _ hl)
    obtain ⟨last₁, last₂, hcons⟩ := classify_cons last pos l ls
    have hwritten : (Placed.token last₁ ⟨l, pos⟩).isImplied = false :=
      not_isImplied_of_lt (hlt last₁)
    have htiles : Tiles pos ((Placed.token last₁ ⟨l, pos⟩ ::
        classify last₂ (pos + byteLength l.chars) ls).filter (!·.isImplied))
        (pos + byteLength ((l :: ls).flatMap Lexeme.chars)) := by
      rw [List.filter_cons_of_pos (by simp [hwritten]), List.flatMap_cons, byteLength_append,
        ← Nat.add_assoc]
      exact ⟨rfl, hlt last₁, ih last₂ _⟩
    rcases hcons with hcons | hcons
    · rw [hcons]
      exact htiles
    · rw [hcons, List.filter_cons_of_neg (by simp [isImplied_impliedProduct])]
      exact htiles

/-- A token that is written follows an implied multiplication. -/
theorem exists_of_isImplied {last : Option TokenKind} {pos : Nat} {us vs : List Token} {t : Token}
    (h : classify last pos ls = us ++ t :: vs) (ht : t.isImplied = true) :
    ∃ u ws, vs = u :: ws ∧ u.start < u.stop := by
  obtain ⟨before, l, after, last', rfl, htoken⟩ := exists_of_classify h
  have hlt := lt_stop_token (hls l (by simp)) last'
    (pos + byteLength (before.flatMap Lexeme.chars))
  rcases htoken with rfl | ⟨-, ws, rfl⟩
  · rw [not_isImplied_of_lt hlt] at ht
    cases ht
  · exact ⟨_, ws, rfl, hlt⟩

theorem length_classify_le (last : Option TokenKind) (pos : Nat) :
    (classify last pos ls).length ≤ 2 * (ls.flatMap Lexeme.chars).length := by
  induction ls generalizing last pos with
  | nil => exact Nat.le_refl 0
  | cons l ls ih =>
    have hpos := List.length_pos_iff.2 (hls l List.mem_cons_self)
    obtain ⟨last₁, last₂, hcons⟩ := classify_cons last pos l ls
    have hle := ih (fun l hl => hls l (List.mem_cons_of_mem _ hl)) last₂ (pos + byteLength l.chars)
    rw [List.flatMap_cons, List.length_append]
    rcases hcons with hcons | hcons
    · rw [hcons, List.length_cons]
      omega
    · rw [hcons, List.length_cons, List.length_cons]
      omega

end Classify

/-! ### The lexemes of a text -/

theorem chars_ne_nil_of_mem_fuse_lexemes (s : String) :
    ∀ l ∈ fuse true (lexemes s.toList), l.chars ≠ [] :=
  fun _ => chars_ne_nil_of_mem_fuse fun _ => chars_ne_nil_of_mem_lexemes

theorem tiles_tokensWithBlanks (s : String) :
    Tiles 0 ((tokensWithBlanks s).filter (!·.isImplied)) s.utf8ByteSize := by
  have htiles := tiles_classify (chars_ne_nil_of_mem_fuse_lexemes s) none 0
  rwa [flatMap_chars_fuse, flatMap_chars_lexemes, byteLength_toList, Nat.zero_add] at htiles

theorem length_tokensWithBlanks_le (s : String) :
    (tokensWithBlanks s).length ≤ 2 * s.length := by
  have hle := length_classify_le (chars_ne_nil_of_mem_fuse_lexemes s) none 0
  rwa [flatMap_chars_fuse, flatMap_chars_lexemes, String.length_toList] at hle

/-! ### Readings -/

namespace Scanner

/-- The tokens of the first `n` readings. -/
def tokens (a : Scanner) (n : Nat) : List Token :=
  (List.range n).map a.token

variable {s : String} {m : Nat}

theorem token_of_lt (h : m < (tokensWithBlanks s).length) :
    (start s).token m = (tokensWithBlanks s)[m] := by
  rw [token_eq_tokenAt, tokenAt, List.getElem?_eq_getElem h]
  rfl

theorem tokens_start (s : String) :
    (start s).tokens (tokensWithBlanks s).length = tokensWithBlanks s := by
  refine List.ext_getElem (by simp [tokens]) fun m _ hm => ?_
  simp [tokens, token_of_lt hm]

/-- A value is read after an implied multiplication, and it starts at the same place. -/
theorem token_succ_of_isImplied (h : m < (tokensWithBlanks s).length)
    (ht : ((start s).token m).isImplied = true) : m + 1 < (tokensWithBlanks s).length ∧
      ((start s).token (m + 1)).isImplied = false ∧
      ((start s).token m).stop = ((start s).token m).start ∧
      ((start s).token (m + 1)).start = ((start s).token m).start := by
  have hsplit : tokensWithBlanks s = (tokensWithBlanks s).take m ++
      (tokensWithBlanks s)[m] :: (tokensWithBlanks s).drop (m + 1) := by
    rw [List.getElem_cons_drop, List.take_append_drop]
  rw [token_of_lt h] at ht
  obtain ⟨u, ws, hdrop, hlt⟩ :=
    exists_of_isImplied (chars_ne_nil_of_mem_fuse_lexemes s) hsplit ht
  have hnext : m + 1 < (tokensWithBlanks s).length := by
    refine Nat.lt_of_not_le fun hle => ?_
    rw [List.drop_eq_nil_of_le hle] at hdrop
    cases hdrop
  have hu : (start s).token (m + 1) = u := by
    rw [List.drop_eq_getElem_cons hnext] at hdrop
    rw [token_of_lt hnext, (List.cons.inj hdrop).1]
  have hstop : ((start s).token m).stop = ((start s).token m).start := by
    rw [token_of_lt h]
    exact congrArg Token.stop (eq_of_beq ht)
  refine ⟨hnext, by rw [hu]; exact not_isImplied_of_lt hlt, hstop, ?_⟩
  rw [← (pos_after s (m + 1)).1, (pos_after s m).2, hstop]

end Scanner

/-- The readings of every text. After some of them, at most two for each character, the text is
read: their tokens are those of the text. Implied multiplications left out, they tile the text, and
all of them start and stop between characters. An implied multiplication is empty, and the token
after it is another one that starts where it stands. From then on every reading gives the end of the
text and changes nothing. -/
theorem scanner_tiles (s : String) :
    ∃ n ≤ 2 * s.length,
      (Scanner.start s).tokens n = tokensWithBlanks s ∧
      Tiles 0 (((Scanner.start s).tokens n).filter (!·.isImplied)) s.utf8ByteSize ∧
      (∀ m, ((Scanner.start s).after m).pos = ((Scanner.start s).token m).start ∧
        ((Scanner.start s).after (m + 1)).pos = ((Scanner.start s).token m).stop ∧
        String.Pos.Raw.IsValid s ⟨((Scanner.start s).after m).pos⟩) ∧
      (∀ m < n, ((Scanner.start s).token m).isImplied = true →
        m + 1 < n ∧ ((Scanner.start s).token (m + 1)).isImplied = false ∧
        ((Scanner.start s).token m).stop = ((Scanner.start s).token m).start ∧
        ((Scanner.start s).token (m + 1)).start = ((Scanner.start s).token m).start) ∧
      ∀ m, n ≤ m → (Scanner.start s).token m = endToken s ∧
        ((Scanner.start s).after m).pos = s.utf8ByteSize ∧
        (Scanner.start s).after (m + 1) = (Scanner.start s).after m := by
  refine ⟨(tokensWithBlanks s).length, length_tokensWithBlanks_le s, Scanner.tokens_start s, ?_,
    fun m => ?_, fun m => Scanner.token_succ_of_isImplied, fun m hm => ?_⟩
  · rw [Scanner.tokens_start]
    exact tiles_tokensWithBlanks s
  · obtain ⟨hstart, hstop⟩ := Scanner.pos_after s m
    exact ⟨hstart, hstop, Scanner.isValid_after s m⟩
  · have hnext := Scanner.next_after s m hm
    have htoken : (Scanner.start s).token m = endToken s := congrArg Prod.fst hnext
    refine ⟨htoken, ?_, congrArg Prod.snd hnext⟩
    rw [(Scanner.pos_after s m).1, htoken]
    rfl

end Formulary
