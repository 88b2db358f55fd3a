import Formulary.Proofs.Printing.Reread
import Formulary.Proofs.Reading.Machine
import Formulary.Proofs.Script.Pieces
import Formulary.Text.Name

/-!
# Tokens of Lua text

A machine that reads one character after the other cuts a text into the tokens of Lua: names,
numerals and single signs. Two minus signs in a row begin a comment, which goes on to the end of the
line.

* `LuaToken`, `LuaPending`: a token, and what was read of one that may go on.
* `LuaPending.start`, `LuaPending.extend`, `luaMachine`: the machine.
* `IsLuaBody`, `EndsPiece`, `BeginsPiece`: texts from which no token goes on into the next one.
* **`luaTokens_intercalate`**: the tokens of a text between pieces.
* `luaTokens_numeral`, `luaTokens_name`: numerals and names are one token.
-/

namespace Formulary

open Text

/-- A token of Lua. -/
inductive LuaToken where
  | numeral (text : List Char)
  | name (text : List Char)
  | sign (char : Char)
  deriving DecidableEq, Repr

/-- The character may stand in a name. -/
def isLuaNameChar (c : Char) : Bool :=
  isLatinLetter c || isDigit c || c == '_'

/-- The words that are no names. -/
def luaKeywords : List String :=
  ["and", "break", "do", "else", "elseif", "end", "false", "for", "function", "goto", "if", "in",
   "local", "nil", "not", "or", "repeat", "return", "then", "true", "until", "while"]

/-- What was read of a token that may go on. -/
inductive LuaPending where
  | nothing
  | numeral (text : List Char)
  | name (text : List Char)
  /-- A minus sign, which another one makes a comment mark. -/
  | minus
  | comment
  deriving DecidableEq, Repr

namespace LuaPending

/-- The token that ends here. -/
def flush : LuaPending → List LuaToken
  | nothing | comment => []
  | numeral cs => [.numeral cs]
  | name cs => [.name cs]
  | minus => [.sign '-']

/-- The token does not go on with the character. -/
def endsBefore : LuaPending → Char → Bool
  | nothing, _ => true
  | numeral _, c => !(isLuaNameChar c || c == '.')
  | name _, c => !isLuaNameChar c
  | minus, c => c != '-'
  | comment, _ => false

/-- A character that begins a token, and the signs that are complete with it. -/
def start (c : Char) : List LuaToken × LuaPending :=
  if c.isWhitespace then ([], nothing)
  else if isDigit c then ([], numeral [c])
  else if isLuaNameChar c then ([], name [c])
  else if c == '-' then ([], minus)
  else ([.sign c], nothing)

/-- What was read with a character more that the token goes on with. -/
def extend : LuaPending → Char → LuaPending
  | nothing, _ => nothing
  | numeral cs, c => numeral (cs ++ [c])
  | name cs, c => name (cs ++ [c])
  | minus, _ => comment
  | comment, c => if c == '\n' then nothing else comment

end LuaPending

/-- The machine that cuts texts into tokens of Lua. -/
def luaMachine : TokenMachine LuaPending LuaToken where
  idle := .nothing
  flush := LuaPending.flush
  endsBefore := LuaPending.endsBefore
  start := LuaPending.start
  extend := LuaPending.extend
  flush_idle := rfl
  endsBefore_idle _ := rfl

open TokenMachine

variable {s t : String}

/-! ### Texts between pieces -/

/-- What stands between pieces: no minus sign begins it, and every other sign ends it. -/
structure IsLuaBody (s : String) : Prop where
  head : ∃ c ∈ s.toList.head?, c ≠ '-'
  last : ∀ c, isLuaNameChar c = false → c ≠ '.' →
    luaMachine.endsBefore (luaMachine.pending s) c = true

/-- What may end a piece. -/
def EndsPiece (p : String) : Prop :=
  luaMachine.pending p = .nothing ∨ luaMachine.pending p = .minus

/-- What may begin a piece that is not the first one. -/
def BeginsPiece (p : String) : Prop :=
  ∃ c ∈ p.toList.head?, isLuaNameChar c = false ∧ c ≠ '.'

instance (p : String) : Decidable (EndsPiece p) :=
  inferInstanceAs (Decidable (luaMachine.pending p = .nothing ∨ luaMachine.pending p = .minus))

instance (p : String) : Decidable (BeginsPiece p) :=
  decidable_of_iff (p.toList.head?.any fun c => !isLuaNameChar c && c != '.') <| by
    simp [BeginsPiece, Option.any_eq_true]

variable {a p : String} {ps : List String}

theorem parts_of_endsPiece (hp : EndsPiece p) (ha : IsLuaBody a) : luaMachine.Parts p a := by
  obtain ⟨c, hc, hne⟩ := ha.head
  refine ⟨c, hc, ?_⟩
  rcases hp with hp | hp
  · rw [hp]
    rfl
  · rw [hp]
    exact bne_iff_ne.2 hne

theorem parts_of_beginsPiece (ha : IsLuaBody a) (hp : BeginsPiece p) : luaMachine.Parts a p := by
  obtain ⟨c, hc, hname, hdot⟩ := hp
  exact ⟨c, hc, ha.last c hname hdot⟩

theorem beginsPiece_append (hp : BeginsPiece p) : BeginsPiece (p ++ s) := by
  obtain ⟨c, hc, h⟩ := hp
  obtain ⟨cs, hcs⟩ := List.head?_eq_some_iff.1 hc
  refine ⟨c, ?_, h⟩
  rw [String.toList_append, hcs]
  rfl

theorem beginsPiece_intercalate (hp : BeginsPiece p) :
    BeginsPiece (a.intercalate (p :: ps)) := by
  cases ps with
  | nil => rwa [String.intercalate_singleton]
  | cons q qs =>
    rw [String.intercalate_cons_cons, String.append_assoc]
    exact beginsPiece_append hp

/-- Between pieces the tokens are those of the text, each time it stands there. -/
theorem luaTokens_intercalate (ha : IsLuaBody a) (hends : ∀ q ∈ p :: ps, EndsPiece q)
    (hbegins : ∀ q ∈ ps, BeginsPiece q) :
    luaMachine.tokens (a.intercalate (p :: ps)) =
      (luaMachine.tokens a).intercalate ((p :: ps).map luaMachine.tokens) := by
  induction ps generalizing p with
  | nil => rw [String.intercalate_singleton, List.map_singleton, List.intercalate_singleton]
  | cons q qs ih =>
    have hp : luaMachine.Parts p a := parts_of_endsPiece (hends p List.mem_cons_self) ha
    have hq : BeginsPiece (a.intercalate (q :: qs)) :=
      beginsPiece_intercalate (hbegins q List.mem_cons_self)
    have hrest := ih (p := q) (fun r hr => hends r (List.mem_cons_of_mem _ hr))
      fun r hr => hbegins r (List.mem_cons_of_mem _ hr)
    rw [String.intercalate_cons_cons, tokens_append (.append_left hp (parts_of_beginsPiece ha hq)),
      tokens_append hp, hrest, List.map_cons, List.map_cons, List.map_cons,
      List.intercalate_cons_cons]

/-- What is left open is what the last piece leaves open. -/
theorem luaPending_intercalate (ha : IsLuaBody a) (hends : ∀ q ∈ p :: ps, EndsPiece q)
    (hbegins : ∀ q ∈ ps, BeginsPiece q)
    (hlast : ∀ q ∈ (p :: ps).getLast?, luaMachine.pending q = .nothing) :
    luaMachine.pending (a.intercalate (p :: ps)) = .nothing := by
  induction ps generalizing p with
  | nil =>
    rw [String.intercalate_singleton]
    exact hlast p rfl
  | cons q qs ih =>
    have hp : luaMachine.Parts p a := parts_of_endsPiece (hends p List.mem_cons_self) ha
    have hq : BeginsPiece (a.intercalate (q :: qs)) :=
      beginsPiece_intercalate (hbegins q List.mem_cons_self)
    rw [String.intercalate_cons_cons, pending_append (.append_left hp (parts_of_beginsPiece ha hq))]
    exact ih (fun r hr => hends r (List.mem_cons_of_mem _ hr))
      (fun r hr => hbegins r (List.mem_cons_of_mem _ hr)) hlast

/-- What begins with a character other than a minus sign and is complete may stand between pieces. -/
theorem isLuaBody_of_complete {c : Char} (hc : c ∈ s.toList.head?) (hne : c ≠ '-')
    (hs : luaMachine.pending s = .nothing) : IsLuaBody s :=
  ⟨⟨c, hc, hne⟩, fun _ _ _ => by rw [hs]; rfl⟩

/-! ### Names and numerals -/

theorem not_isWhitespace_of_isLuaNameChar {c : Char} (h : isLuaNameChar c = true) :
    c.isWhitespace = false := by
  rw [Bool.eq_false_iff]
  intro hspace
  have hcases : c = ' ' ∨ c = '\t' ∨ c = '\r' ∨ c = '\n' := by
    simpa [Char.isWhitespace, or_assoc] using hspace
  rcases hcases with rfl | rfl | rfl | rfl <;> exact absurd h (by decide)

/-- A plain numeral is one token, and may stand between pieces. -/
theorem luaTokens_numeral (h : isPlainNumeral s.toList = true) :
    luaMachine.tokens s = [.numeral s.toList] ∧ IsLuaBody s := by
  obtain ⟨hne, hchars⟩ := chars_of_isPlainNumeral h
  obtain ⟨d, ds, fs, hs, hdigits, -⟩ := exists_of_isPlainNumeral h
  have hd : isDigit d = true := hdigits d List.mem_cons_self
  have hstart : LuaPending.start d = ([], .numeral [d]) := by
    have hspace := not_isWhitespace_of_isLuaNameChar (c := d) (by simp [isLuaNameChar, hd])
    simp [LuaPending.start, hd, hspace]
  have hgoes (es : List Char) : ∀ c ∈ ds ++ fs,
      luaMachine.endsBefore (.numeral es) c = false ∧
        luaMachine.extend (.numeral es) c = .numeral (es ++ [c]) := by
    intro c hc
    have hc' := hchars c (by rw [hs, List.cons_append]; exact List.mem_cons_of_mem _ hc)
    refine ⟨?_, rfl⟩
    rcases hc' with hdigit | rfl
    · simp [luaMachine, LuaPending.endsBefore, isLuaNameChar, hdigit]
    · rfl
  have hrun : luaMachine.run luaMachine.idle s.toList = ([], .numeral s.toList) :=
    run_of_start (by rw [hs, List.cons_append]) hstart hgoes
  have hpending : luaMachine.pending s = .numeral s.toList := congrArg (fun r => r.2) hrun
  refine ⟨?_, ⟨d, by rw [hs]; rfl, ?_⟩, fun c hname hdot => ?_⟩
  · rw [tokens, hpending, hrun]
    rfl
  · rintro rfl
    exact absurd hd (by decide)
  · rw [hpending]
    simp [luaMachine, LuaPending.endsBefore, hname, hdot]

/-- The text is a name in Lua. -/
structure IsLuaName (name : String) : Prop where
  head : ∃ c ∈ name.toList.head?, isDigit c = false
  chars : ∀ c ∈ name.toList, isLuaNameChar c = true
  not_keyword : name ∉ luaKeywords

/-- A name is one token, and may stand between pieces. -/
theorem luaTokens_name (h : IsLuaName s) : luaMachine.tokens s = [.name s.toList] ∧ IsLuaBody s := by
  obtain ⟨c, hc, hdigit⟩ := h.head
  obtain ⟨cs, hs⟩ := List.head?_eq_some_iff.1 hc
  have hchars := h.chars
  have hname : isLuaNameChar c = true := hchars c (by rw [hs]; exact List.mem_cons_self)
  have hstart : LuaPending.start c = ([], .name [c]) := by
    simp [LuaPending.start, hdigit, hname, not_isWhitespace_of_isLuaNameChar hname]
  have hgoes (es : List Char) : ∀ d ∈ cs, luaMachine.endsBefore (.name es) d = false ∧
      luaMachine.extend (.name es) d = .name (es ++ [d]) := by
    intro d hd
    have hd' := hchars d (by rw [hs]; exact List.mem_cons_of_mem _ hd)
    exact ⟨by simp [luaMachine, LuaPending.endsBefore, hd'], rfl⟩
  have hrun : luaMachine.run luaMachine.idle s.toList = ([], .name s.toList) :=
    run_of_start hs hstart hgoes
  have hpending : luaMachine.pending s = .name s.toList := congrArg (fun r => r.2) hrun
  refine ⟨?_, ⟨c, hc, ?_⟩, fun d hd _ => ?_⟩
  · rw [tokens, hpending, hrun]
    rfl
  · rintro rfl
    exact absurd hname (by decide)
  · rw [hpending]
    simp [luaMachine, LuaPending.endsBefore, hd]

end Formulary
