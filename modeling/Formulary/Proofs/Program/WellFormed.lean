import Formulary.Proofs.Program.Stack

/-!
# Programs are well formed

A program is laid out so that it can be run without any check: each slot that it loads is there,
each step finds its operands, and the stack needs the announced room and no more.

* `Expr.uses`: the names of the variables from left to right, once for each time they stand there.
* `names_emit`, `Expr.variableNames_eq`: the slots are the variables of the tree, in the order of
  their first uses.
* `Visits code start stack`: a run of the code from `start` has this stack at some moment.
* `visits_append_iff`: the moments of a run in two parts.
* `length_le_of_visits`, `exists_visits`: the code of a tree puts no more values on the stack than
  its depth, and as many at some moment if it runs to its end.
* **`wellFormed_ofExpr`**: the program of any tree is well formed.
-/

namespace Formulary

universe u

variable {K : Type u}

/-! ### Slots -/

namespace Expr

/-- The name of a variable. -/
def variableName? : Expr K → Option String
  | named name _ => some name
  | _ => none

/-- The names of the variables from left to right, once for each time they stand there. -/
def uses (a : Expr K) : List String :=
  a.subtrees.filterMap variableName?

theorem uses_binary (op : BinaryOp) (a b : Expr K) (p : Position) :
    (binary op a b p).uses = a.uses ++ b.uses :=
  List.filterMap_append

theorem nodup_addName {names : List String} (h : names.Nodup) (name : String) :
    (addName names name).Nodup := by
  unfold addName
  split
  · exact h
  · next hname =>
    exact List.nodup_append.2 ⟨h, List.nodup_singleton name, fun n hn m hm heq =>
      hname (List.mem_singleton.1 hm ▸ heq ▸ hn)⟩

theorem nodup_collectNames {names : List String} (h : names.Nodup) (a : Expr K) :
    (collectNames names a).Nodup := by
  induction a generalizing names with
  | number v => exact h
  | argument => exact h
  | named n p => exact nodup_addName h n
  | neg a ih => exact ih h
  | binary op a b p iha ihb => exact ihb (iha h)
  | call f a p ih => exact ih h

/-- The names of a tree join those found before in the order of their uses. -/
theorem collectNames_eq (names : List String) (a : Expr K) :
    collectNames names a = a.uses.foldl addName names := by
  induction a generalizing names with
  | number v => rfl
  | argument => rfl
  | named n p => rfl
  | neg a ih => exact ih names
  | binary op a b p iha ihb => rw [collectNames, iha, ihb, uses_binary, List.foldl_append]
  | call f a p ih => exact ih names

end Expr

/-- Names that join a list one after the other leave it without repetitions, in reverse as the scan
for repetitions keeps it. -/
theorem foldl_addName (uses names : List String) :
    uses.foldl Expr.addName names = List.eraseDupsBy.loop (· == ·) uses names.reverse := by
  induction uses generalizing names with
  | nil => exact (List.reverse_reverse names).symm
  | cons n uses ih =>
    rw [List.foldl_cons, ih, List.eraseDupsBy.loop]
    unfold Expr.addName
    split
    · next h =>
      have hany : names.reverse.any (n == ·) = true := by simpa using h
      rw [hany]
    · next h =>
      have hany : names.reverse.any (n == ·) = false := by
        simpa using fun m hm (heq : n = m) => h (heq ▸ hm)
      rw [hany, List.reverse_concat]

/-- The names of a tree stand in the order of their first uses. -/
theorem Expr.variableNames_eq (a : Expr K) : a.variableNames = a.uses.eraseDups := by
  unfold Expr.variableNames
  rw [Expr.collectNames_eq, foldl_addName]
  rfl

/-- The slots of a program are the names found before and those of its tree. -/
theorem names_emit (names : List String) (a : Expr K) :
    (Program.emit names a).names = Expr.collectNames names a := by
  induction a generalizing names with
  | number v => rfl
  | argument => rfl
  | named n p => rfl
  | neg a ih => exact ih names
  | binary op a b p iha ihb =>
    show (Program.emit (Program.emit names a).names b).names = _
    rw [ihb, iha, Expr.collectNames]
  | call f a p ih => exact ih names

/-- Every slot that is loaded has a name. -/
theorem lt_of_load_mem {names all : List String} {a : Expr K} {slot : Nat} {p : Position}
    (hp : (Program.emit names a).names <+: all)
    (h : .load slot p ∈ (Program.emit names a).code) : slot < all.length := by
  induction a generalizing names with
  | number v => cases List.mem_singleton.1 h
  | argument => cases List.mem_singleton.1 h
  | named n q =>
    cases List.mem_singleton.1 h
    exact Nat.lt_of_lt_of_le (List.idxOf_lt_length_iff.2 (Expr.mem_addName names n)) hp.length_le
  | neg a ih =>
    rcases List.mem_append.1 h with h | h
    · exact ih hp h
    · cases List.mem_singleton.1 h
  | binary op a b q iha ihb =>
    have hb := Program.names_prefix_emit (Program.emit names a).names b
    rcases List.mem_append.1 h with h | h
    · rcases List.mem_append.1 h with h | h
      · exact iha (hb.trans hp) h
      · exact ihb hp h
    · cases List.mem_singleton.1 h
  | call f a q ih =>
    rcases List.mem_append.1 h with h | h
    · exact ih hp h
    · cases List.mem_singleton.1 h

/-! ### Heights -/

theorem depth_pos (names : List String) (a : Expr K) : 0 < (Program.emit names a).depth := by
  induction a generalizing names with
  | number v => exact Nat.one_pos
  | argument => exact Nat.one_pos
  | named n p => exact Nat.one_pos
  | neg a ih => exact ih names
  | binary op a b p iha ihb => exact Nat.lt_of_lt_of_le (iha names) (Nat.le_max_left _ _)
  | call f a p ih => exact ih names

variable [Arith K] {names : List String} {slots : List (Option K)} {x : K} {mode : EvalMode}

/-- A step takes its operands off the stack and puts one value on it. -/
theorem length_of_step {i : Instruction K} {stack left : List K}
    (hoperands : i.operands ≤ stack.length) (h : i.step names slots x mode stack = .ok left) :
    left.length + i.operands = stack.length + 1 := by
  cases i with
  | push v =>
    cases h
    rfl
  | argument =>
    cases h
    rfl
  | load slot p =>
    simp only [Instruction.step] at h
    split at h <;> cases h
    rfl
  | neg =>
    obtain ⟨v, rest, rfl⟩ := List.exists_cons_of_length_pos hoperands
    cases h
    rfl
  | binary op p =>
    obtain ⟨w, below, rfl⟩ := List.exists_cons_of_length_pos (Nat.lt_of_succ_lt hoperands)
    obtain ⟨v, rest, rfl⟩ := List.exists_cons_of_length_pos (Nat.lt_of_succ_lt_succ hoperands)
    simp only [Instruction.step, popValue] at h
    split at h <;> cases h
    rfl
  | call f p =>
    obtain ⟨v, rest, rfl⟩ := List.exists_cons_of_length_pos hoperands
    simp only [Instruction.step, popValue] at h
    split at h <;> cases h
    rfl

theorem runCode_append_eq_ok {xs ys : List (Instruction K)} {stack left : List K} :
    runCode names slots x mode (xs ++ ys) stack = .ok left ↔
      ∃ next, runCode names slots x mode xs stack = .ok next ∧
        runCode names slots x mode ys next = .ok left := by
  rw [runCode_append]
  cases runCode names slots x mode xs stack with
  | ok next => exact ⟨fun h => ⟨next, rfl, h⟩, fun ⟨_, heq, h⟩ => by cases heq; exact h⟩
  | error e => exact ⟨nofun, nofun⟩

variable (names slots x mode) in
/-- A run of the code from `start` has the stack `stack` at some moment: before its first step,
between two, or after the last. -/
def Visits (code : List (Instruction K)) (start stack : List K) : Prop :=
  ∃ before after, code = before ++ after ∧ runCode names slots x mode before start = .ok stack

/-- The moments of a run in two parts are those of the first, and those of the second once the first
has succeeded. -/
theorem visits_append_iff {xs ys : List (Instruction K)} {start stack : List K} :
    Visits names slots x mode (xs ++ ys) start stack ↔
      Visits names slots x mode xs start stack ∨
        ∃ next, runCode names slots x mode xs start = .ok next ∧
          Visits names slots x mode ys next stack := by
  unfold Visits
  constructor
  · rintro ⟨before, after, hcode, hrun⟩
    obtain ⟨mid, rfl, hys⟩ | ⟨mid, hxs, -⟩ := List.append_eq_append_iff.1 hcode
    · obtain ⟨next, hnext, hleft⟩ := runCode_append_eq_ok.1 hrun
      exact .inr ⟨next, hnext, mid, after, hys, hleft⟩
    · exact .inl ⟨before, mid, hxs, hrun⟩
  · rintro (⟨before, after, rfl, hrun⟩ | ⟨next, hnext, mid, after, rfl, hrun⟩)
    · exact ⟨before, after ++ ys, List.append_assoc before after ys, hrun⟩
    · exact ⟨xs ++ mid, after, (List.append_assoc xs mid after).symm,
        runCode_append_eq_ok.2 ⟨next, hnext, hrun⟩⟩

/-- A run has the stack that it ends with. -/
theorem visits_of_run {code : List (Instruction K)} {start left : List K}
    (h : runCode names slots x mode code start = .ok left) :
    Visits names slots x mode code start left :=
  ⟨code, [], (List.append_nil code).symm, h⟩

/-- A step has the stacks before and after it, and a height that bounds both bounds its moments. -/
theorem length_le_of_visits_single {i : Instruction K} {start stack : List K} {height : Nat}
    (h : Visits names slots x mode [i] start stack) (hoperands : i.operands ≤ start.length)
    (hstart : start.length ≤ height) (hend : start.length + 1 ≤ height + i.operands) :
    stack.length ≤ height := by
  obtain ⟨before, after, hcode, hrun⟩ := h
  cases before with
  | nil =>
    cases hrun
    exact hstart
  | cons j before =>
    obtain ⟨rfl, hnil⟩ := List.cons.inj hcode
    obtain ⟨rfl, -⟩ := List.append_eq_nil_iff.1 hnil.symm
    rw [runCode] at hrun
    cases hstep : i.step names slots x mode start with
    | ok left =>
      rw [hstep] at hrun
      cases hrun
      rw [← length_of_step hoperands hstep] at hend
      exact Nat.le_of_add_le_add_right hend
    | error e =>
      rw [hstep] at hrun
      cases hrun

/-- At no moment the code of a tree has put more values on the stack than its depth. -/
theorem length_le_of_visits {a : Expr K} {vars : Vars K} {names all : List String}
    {start stack : List K} (hp : (Program.emit names a).names <+: all)
    (h : Visits all (all.map vars.get?) x mode (Program.emit names a).code start stack) :
    stack.length ≤ start.length + (Program.emit names a).depth := by
  induction a generalizing names start with
  | number v =>
    exact length_le_of_visits_single h (Nat.zero_le _) (Nat.le_succ _) (Nat.le_refl _)
  | argument =>
    exact length_le_of_visits_single h (Nat.zero_le _) (Nat.le_succ _) (Nat.le_refl _)
  | named n p =>
    exact length_le_of_visits_single h (Nat.zero_le _) (Nat.le_succ _) (Nat.le_refl _)
  | neg a ih =>
    obtain h | ⟨next, hnext, h⟩ := visits_append_iff.1 h
    · exact ih hp h
    · obtain ⟨v, rfl⟩ := exists_of_runCode_emit (a := a) hp hnext
      have hone := Nat.add_le_add_left (depth_pos names a) start.length
      exact length_le_of_visits_single h (Nat.le_add_left 1 _) hone (Nat.succ_le_succ hone)
  | binary op a b p iha ihb =>
    have hb := Program.names_prefix_emit (Program.emit names a).names b
    have hdepth := depth_pos (Program.emit names a).names b
    obtain h | ⟨below, hbelow, h⟩ := visits_append_iff.1 h
    · obtain h | ⟨next, hnext, h⟩ := visits_append_iff.1 h
      · have hle := iha (hb.trans hp) h
        exact hle.trans (Nat.add_le_add_left (Nat.le_max_left _ _) _)
      · -- the right operand runs on the value of the left one
        obtain ⟨v, rfl⟩ := exists_of_runCode_emit (a := a) (hb.trans hp) hnext
        have hle := ihb hp h
        rw [List.length_cons, Nat.add_right_comm, Nat.add_assoc] at hle
        exact hle.trans (Nat.add_le_add_left (Nat.le_max_right _ _) _)
    · obtain ⟨next, hnext, hbelow⟩ := runCode_append_eq_ok.1 hbelow
      obtain ⟨v, rfl⟩ := exists_of_runCode_emit (a := a) (hb.trans hp) hnext
      obtain ⟨w, rfl⟩ := exists_of_runCode_emit (a := b) hp hbelow
      have htwo : start.length + 2 ≤ start.length + (Program.emit names (.binary op a b p)).depth :=
        Nat.add_le_add_left ((Nat.succ_le_succ hdepth).trans (Nat.le_max_right _ _)) _
      exact length_le_of_visits_single h (Nat.le_add_left 2 _) htwo
        (Nat.le_succ_of_le (Nat.succ_le_succ htwo))
  | call f a p ih =>
    obtain h | ⟨next, hnext, h⟩ := visits_append_iff.1 h
    · exact ih hp h
    · obtain ⟨v, rfl⟩ := exists_of_runCode_emit (a := a) hp hnext
      have hone := Nat.add_le_add_left (depth_pos names a) start.length
      exact length_le_of_visits_single h (Nat.le_add_left 1 _) hone (Nat.succ_le_succ hone)

/-- A run of the code of a tree to its end has put as many values on the stack as its depth at some
moment. -/
theorem exists_visits {a : Expr K} {vars : Vars K} {names all : List String} {start left : List K}
    (hp : (Program.emit names a).names <+: all)
    (h : runCode all (all.map vars.get?) x mode (Program.emit names a).code start = .ok left) :
    ∃ stack, Visits all (all.map vars.get?) x mode (Program.emit names a).code start stack ∧
      stack.length = start.length + (Program.emit names a).depth := by
  induction a generalizing names start left with
  | number v =>
    cases h
    exact ⟨_, visits_of_run rfl, rfl⟩
  | argument =>
    cases h
    exact ⟨_, visits_of_run rfl, rfl⟩
  | named n p =>
    obtain ⟨v, rfl⟩ := exists_of_runCode_emit (a := .named n p) hp h
    exact ⟨_, visits_of_run h, rfl⟩
  | neg a ih =>
    obtain ⟨next, hnext, -⟩ := runCode_append_eq_ok.1 h
    obtain ⟨stack, hvisits, hlength⟩ := ih hp hnext
    exact ⟨stack, visits_append_iff.2 (.inl hvisits), hlength⟩
  | binary op a b p iha ihb =>
    have hb := Program.names_prefix_emit (Program.emit names a).names b
    obtain ⟨below, hbelow, -⟩ := runCode_append_eq_ok.1 h
    obtain ⟨next, hnext, hright⟩ := runCode_append_eq_ok.1 hbelow
    obtain ⟨v, rfl⟩ := exists_of_runCode_emit (a := a) (hb.trans hp) hnext
    -- the depth is that of the operand that needs more, the right one on top of a value
    rcases Nat.le_total ((Program.emit (Program.emit names a).names b).depth + 1)
      (Program.emit names a).depth with hle | hle
    · obtain ⟨stack, hvisits, hlength⟩ := iha (hb.trans hp) hnext
      have hmax := Nat.max_eq_left hle
      exact ⟨stack, visits_append_iff.2 (.inl (visits_append_iff.2 (.inl hvisits))),
        hlength.trans (congrArg _ hmax.symm)⟩
    · obtain ⟨stack, hvisits, hlength⟩ := ihb hp hright
      have hmax := Nat.max_eq_right hle
      have hmoment := visits_append_iff.2 (.inr ⟨_, hnext, hvisits⟩)
      refine ⟨stack, visits_append_iff.2 (.inl hmoment), ?_⟩
      rw [hlength, List.length_cons, Nat.add_right_comm, Nat.add_assoc]
      exact congrArg _ hmax.symm
  | call f a p ih =>
    obtain ⟨next, hnext, -⟩ := runCode_append_eq_ok.1 h
    obtain ⟨stack, hvisits, hlength⟩ := ih hp hnext
    exact ⟨stack, visits_append_iff.2 (.inl hvisits), hlength⟩

/-! ### Whole programs -/

/-- A program has the form that running it relies on, as the program of a tree. -/
structure Program.WellFormed (p : Program K) (a : Expr K) : Prop where
  /-- There is a step for each node. -/
  length_code : p.code.length = a.size
  /-- The slots are the variables of the tree. -/
  names_eq : p.names = a.variableNames
  /-- Slots come in the order of their first uses, -/
  names_eq_uses : p.names = a.uses.eraseDups
  /-- and no variable has two. -/
  nodup_names : p.names.Nodup
  load_lt : ∀ slot q, .load slot q ∈ p.code → slot < p.names.length
  /-- Whatever a run has come to, the operands of its next step are on the stack. -/
  operands_le : ∀ x vars mode before i after stack, p.code = before ++ i :: after →
    runCode p.names (p.bind vars) x mode before [] = .ok stack → i.operands ≤ stack.length
  /-- No run puts more values on the stack than the depth, whether it fails or not. -/
  length_le : ∀ x vars mode stack, Visits p.names (p.bind vars) x mode p.code [] stack →
    stack.length ≤ p.depth
  /-- A run that does not fail puts as many there at some moment, -/
  exists_visits : ∀ x vars mode v, p.eval x vars mode = .ok v →
    ∃ stack, Visits p.names (p.bind vars) x mode p.code [] stack ∧ stack.length = p.depth
  /-- and only its value is there at the end. -/
  runCode_eq : ∀ x vars mode v, p.eval x vars mode = .ok v →
    runCode p.names (p.bind vars) x mode p.code [] = .ok [v]

/-- A run that gives a value has left the value and nothing else on the stack. -/
theorem runCode_of_eval {a : Expr K} {vars : Vars K} {v : K}
    (h : (Program.ofExpr a).eval x vars mode = .ok v) :
    runCode (Program.ofExpr a).names ((Program.ofExpr a).bind vars) x mode
      (Program.ofExpr a).code [] = .ok [v] := by
  unfold Program.eval Program.run at h
  split at h
  · next left hleft =>
    obtain ⟨w, rfl⟩ := exists_of_runCode_emit (List.prefix_refl _) hleft
    cases h
    exact hleft
  · cases h

/-- **Programs are well formed**: the program of any tree has a step for each node and a slot for
each variable, and however it runs, each step finds its operands and the stack needs exactly the
announced room. -/
theorem wellFormed_ofExpr (a : Expr K) : (Program.ofExpr a).WellFormed a where
  length_code := Program.length_code_emit [] a
  names_eq := names_emit [] a
  names_eq_uses := (names_emit [] a).trans a.variableNames_eq
  nodup_names := by
    rw [Program.ofExpr, names_emit]
    exact Expr.nodup_collectNames List.nodup_nil a
  load_lt := fun slot q h => lt_of_load_mem (List.prefix_refl _) h
  operands_le := fun x vars mode before i after stack hcode hrun => by
    have hon := runOn_of_ok hrun
    have hle := operands_le_length hcode (congrArg Prod.fst hon)
    rwa [hon] at hle
  length_le := fun x vars mode stack h => by
    have hle := length_le_of_visits (List.prefix_refl _) h
    rwa [List.length_nil, Nat.zero_add] at hle
  exists_visits := fun x vars mode v h => by
    obtain ⟨stack, hvisits, hlength⟩ := exists_visits (List.prefix_refl _) (runCode_of_eval h)
    exact ⟨stack, hvisits, hlength.trans (Nat.zero_add _)⟩
  runCode_eq := fun x vars mode v h => runCode_of_eval h

end Formulary
