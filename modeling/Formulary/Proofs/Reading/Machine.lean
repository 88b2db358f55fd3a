import Mathlib.Data.List.Basic

/-!
# Cutting texts into tokens

A machine reads one character after the other. It remembers what it has read of the token it is in,
and a character that does not go on with this token begins the next one.

* `TokenMachine S T`: such a machine with states in `S` and tokens in `T`.
* `TokenMachine.run`, `TokenMachine.tokens`: what it does with a text.
* `TokenMachine.Parts M s t`: no token goes on from the text `s` into `t`.
* **`TokenMachine.tokens_append`**: then the tokens of both are those of one and of the other.
-/

namespace Formulary

universe u v

/-- A machine that cuts texts into tokens. -/
structure TokenMachine (S : Type u) (T : Type v) where
  /-- Nothing was read of a token. -/
  idle : S
  /-- The token that ends here. -/
  flush : S → List T
  /-- The token does not go on with the character. -/
  endsBefore : S → Char → Bool
  /-- A character that begins a token: the tokens that are complete with it, and the new state. -/
  start : Char → List T × S
  /-- The state after a character that the token goes on with. -/
  extend : S → Char → S
  flush_idle : flush idle = []
  endsBefore_idle : ∀ c, endsBefore idle c = true

namespace TokenMachine

variable {S : Type u} {T : Type v} (M : TokenMachine S T)

/-- A character more: the tokens that are complete, and the new state. -/
def step (p : S) (c : Char) : List T × S :=
  if M.endsBefore p c then (M.flush p ++ (M.start c).1, (M.start c).2) else ([], M.extend p c)

/-- Characters more: the tokens that are complete, and the new state. -/
def run : S → List Char → List T × S
  | p, [] => ([], p)
  | p, c :: cs =>
    ((M.step p c).1 ++ (run (M.step p c).2 cs).1, (run (M.step p c).2 cs).2)

/-- The state after a text. -/
def pending (s : String) : S :=
  (M.run M.idle s.toList).2

/-- The tokens of a text. -/
def tokens (s : String) : List T :=
  (M.run M.idle s.toList).1 ++ M.flush (M.pending s)

/-- No token goes on from the first text into the second, which is not empty. -/
def Parts (s t : String) : Prop :=
  ∃ c ∈ t.toList.head?, M.endsBefore (M.pending s) c = true

variable {M} {s t : String}

theorem run_append (p : S) (cs ds : List Char) :
    M.run p (cs ++ ds) =
      ((M.run p cs).1 ++ (M.run (M.run p cs).2 ds).1, (M.run (M.run p cs).2 ds).2) := by
  induction cs generalizing p with
  | nil => rfl
  | cons c cs ih =>
    show ((M.step p c).1 ++ (M.run (M.step p c).2 (cs ++ ds)).1,
      (M.run (M.step p c).2 (cs ++ ds)).2) = _
    rw [ih, ← List.append_assoc]
    rfl

theorem step_idle (c : Char) : M.step M.idle c = M.start c := by
  unfold step
  rw [if_pos (M.endsBefore_idle c), M.flush_idle]
  rfl

/-- A token that ends before the text is one token more. -/
theorem run_of_endsBefore {p : S} {cs : List Char} {c : Char} (hc : c ∈ cs.head?)
    (h : M.endsBefore p c = true) :
    M.run p cs = (M.flush p ++ (M.run M.idle cs).1, (M.run M.idle cs).2) := by
  obtain ⟨cs, rfl⟩ := List.head?_eq_some_iff.1 hc
  have hstep : M.step p c = (M.flush p ++ (M.start c).1, (M.start c).2) := if_pos h
  simp only [run, hstep, step_idle, List.append_assoc]

/-- The machine cuts the second text as if it stood alone. -/
theorem run_of_parts (h : M.Parts s t) : M.run M.idle (s ++ t).toList =
    (M.tokens s ++ (M.run M.idle t.toList).1, (M.run M.idle t.toList).2) := by
  obtain ⟨c, hc, hends⟩ := h
  have hrun := run_of_endsBefore (p := (M.run M.idle s.toList).2) hc hends
  rw [String.toList_append, run_append, hrun, ← List.append_assoc]
  rfl

theorem pending_append (h : M.Parts s t) : M.pending (s ++ t) = M.pending t :=
  congrArg (fun r => r.2) (run_of_parts h)

theorem tokens_append (h : M.Parts s t) : M.tokens (s ++ t) = M.tokens s ++ M.tokens t := by
  unfold tokens
  rw [pending_append h, run_of_parts h, List.append_assoc]
  rfl

theorem Parts.append_right {r : String} (h : M.Parts s t) : M.Parts s (t ++ r) := by
  obtain ⟨c, hc, hends⟩ := h
  refine ⟨c, ?_, hends⟩
  obtain ⟨cs, hcs⟩ := List.head?_eq_some_iff.1 hc
  rw [String.toList_append, hcs]
  rfl

/-- Only the end of the first text matters. -/
theorem Parts.append_left {r : String} (hrs : M.Parts r s) (h : M.Parts s t) :
    M.Parts (r ++ s) t := by
  obtain ⟨c, hc, hends⟩ := h
  exact ⟨c, hc, (congrArg (M.endsBefore · c) (pending_append hrs)).trans hends⟩

/-- Characters that a token goes on with. -/
theorem run_of_extends {f : List Char → S} {cs ds : List Char}
    (h : ∀ es, ∀ c ∈ ds, M.endsBefore (f es) c = false ∧ M.extend (f es) c = f (es ++ [c])) :
    M.run (f cs) ds = ([], f (cs ++ ds)) := by
  induction ds generalizing cs with
  | nil => rw [List.append_nil, run]
  | cons c ds ih =>
    obtain ⟨hgoes, hextend⟩ := h cs c List.mem_cons_self
    have hstep : M.step (f cs) c = ([], f (cs ++ [c])) := by
      unfold step
      rw [if_neg (Bool.eq_false_iff.1 hgoes), hextend]
    rw [run, hstep, ih fun es d hd => h es d (List.mem_cons_of_mem _ hd), List.append_assoc]
    rfl

/-- A text that is one token from its first character on. -/
theorem run_of_start {f : List Char → S} {cs ds : List Char} {c : Char} (hs : cs = c :: ds)
    (hstart : M.start c = ([], f [c]))
    (h : ∀ es, ∀ d ∈ ds, M.endsBefore (f es) d = false ∧ M.extend (f es) d = f (es ++ [d])) :
    M.run M.idle cs = ([], f cs) := by
  subst hs
  rw [run, step_idle, hstart, run_of_extends h]
  rfl

end TokenMachine

end Formulary
