import Formulary.Proofs.Expr.KeptValues
import Formulary.Proofs.Program.Batch

/-!
# What is on the stack of a program

The program of a tree puts on its stack what it is supplied with and what it computes and keeps. At
every moment of a run the operands of the next step are there.

* `push_mem_emit`: the numbers that a program pushes are those of its tree.
* `forall_step`, `forall_runOn`: what holds of all that is pushed, of the argument, of the slots and
  of every kept number holds of the whole stack, also after a step that fails.
* **`Expr.Supplied.stack`**: it holds of the stack after any part of the program of a tree.
* `FindsOperands base code stack`: no step of the code takes one of the lowest `base` values.
* `findsOperands_emit`: the code of a tree leaves the stack it starts on alone.
* **`operands_le_length`**: after any part of a program that succeeds, the operands of the step that
  follows lie on the stack.
-/

namespace Formulary

universe u

variable {K : Type u}

/-- The numbers that a program pushes are those of its tree. -/
theorem push_mem_emit {names : List String} {a : Expr K} {v : K}
    (h : .push v ∈ (Program.emit names a).code) : .number v ∈ a.subtrees := by
  induction a generalizing names with
  | number w =>
    cases List.mem_singleton.1 h
    exact Expr.mem_subtrees_self _
  | argument => cases List.mem_singleton.1 h
  | named n p => cases List.mem_singleton.1 h
  | neg a ih =>
    rcases List.mem_append.1 h with h | h
    · exact Expr.subtrees_subset (Expr.mem_subtrees_neg a) (ih h)
    · cases List.mem_singleton.1 h
  | binary op a b p iha ihb =>
    rcases List.mem_append.1 h with h | h
    · rcases List.mem_append.1 h with h | h
      · exact Expr.subtrees_subset (Expr.mem_subtrees_left op a b p) (iha h)
      · exact Expr.subtrees_subset (Expr.mem_subtrees_right op a b p) (ihb h)
    · cases List.mem_singleton.1 h
  | call f a p ih =>
    rcases List.mem_append.1 h with h | h
    · exact Expr.subtrees_subset (Expr.mem_subtrees_call f a p) (ih h)
    · cases List.mem_singleton.1 h

variable [Arith K] {P : K → Prop} {names : List String} {slots : List (Option K)} {x : K}
  {mode : EvalMode}

/-! ### What holds of all values on the stack -/

theorem mem_popValue {stack : List K} {v : K} (h : v ∈ (popValue stack).2) : v ∈ stack := by
  cases stack with
  | nil => cases h
  | cons w stack => exact List.mem_cons_of_mem _ h

section Kept

variable (hkept : ∀ v : K, P (Arith.normalize v)) (hx : P x)
  (hslots : ∀ (n : Nat) (v : K), slots[n]?.join = some v → P v)

include hkept hx hslots

/-- A step puts one value on the stack, and takes its operands off it. -/
theorem forall_step {i : Instruction K} {stack stack' : List K} (hi : ∀ v, i = .push v → P v)
    (hstack : ∀ v ∈ stack, P v) (h : i.step names slots x mode stack = .ok stack') :
    ∀ v ∈ stack', P v := by
  have hcons {w : K} {rest : List K} (hw : P w) (hrest : ∀ v ∈ rest, v ∈ stack) :
      ∀ v ∈ w :: rest, P v := by
    intro v hv
    rcases List.mem_cons.1 hv with rfl | hv
    · exact hw
    · exact hstack v (hrest v hv)
  cases i with
  | push w =>
    cases h
    exact hcons (hi w rfl) fun _ hv => hv
  | argument =>
    cases h
    exact hcons hx fun _ hv => hv
  | load slot p =>
    simp only [Instruction.step] at h
    split at h
    · next w hw =>
      cases h
      exact hcons (hslots slot w hw) fun _ hv => hv
    · cases h
  | neg =>
    cases h
    exact hcons (hkept _) fun _ hv => mem_popValue hv
  | binary op p =>
    simp only [Instruction.step] at h
    split at h
    · next u hu =>
      cases h
      obtain ⟨-, rfl⟩ := Expr.evalBinary_eq_ok hu
      exact hcons (hkept _) fun _ hv => mem_popValue (mem_popValue hv)
    · cases h
  | call f p =>
    simp only [Instruction.step] at h
    split at h
    · next u hu =>
      cases h
      obtain rfl := Expr.evalCall_eq_ok hu
      exact hcons (hkept _) fun _ hv => mem_popValue hv
    · cases h

/-- All values that a run leaves on the stack have the property, whether it succeeds or fails. -/
theorem forall_runOn {code : List (Instruction K)} {stack : List K}
    (hcode : ∀ v, .push v ∈ code → P v) (hstack : ∀ v ∈ stack, P v) :
    ∀ v ∈ (runOn names slots x mode code stack).2, P v := by
  induction code generalizing stack with
  | nil => exact hstack
  | cons i is ih =>
    rw [runOn]
    split
    · next next hstep =>
      refine ih (fun v hv => hcode v (List.mem_cons_of_mem _ hv)) ?_
      refine forall_step hkept hx hslots (fun v hi => hcode v ?_) hstack hstep
      rw [hi]
      exact List.mem_cons_self
    · exact fun v hv => hstack v (List.mem_of_mem_drop hv)

end Kept

/-- The stack has the property after any part of the program of a tree. -/
theorem Expr.Supplied.stack {a : Expr K} {vars : Vars K} (hkept : ∀ v : K, P (Arith.normalize v))
    (h : Supplied P x vars a) {code rest : List (Instruction K)}
    (hcode : (Program.ofExpr a).code = code ++ rest) :
    ∀ v ∈ (runOn (Program.ofExpr a).names ((Program.ofExpr a).bind vars) x mode code []).2, P v := by
  refine forall_runOn hkept h.argument (fun n v hv => ?_) (fun v hv => ?_) fun v hv => ?_
  · unfold Program.bind at hv
    rw [List.getElem?_map, Option.join_eq_some_iff] at hv
    obtain ⟨name, -, hname⟩ := Option.map_eq_some_iff.1 hv
    exact h.bound name v hname
  · have hpush : .push v ∈ (Program.ofExpr a).code := by
      rw [hcode]
      exact List.mem_append_left _ hv
    exact h.number v (push_mem_emit hpush)
  · cases hv

/-! ### Operands -/

/-- A list of two parts is cut in front of an entry either in its first part or in its second. -/
theorem split_of_append {α : Type u} {xs ys before after : List α} {i : α}
    (h : xs ++ ys = before ++ i :: after) :
    (∃ rest, xs = before ++ i :: rest) ∨ ∃ mid, before = xs ++ mid ∧ ys = mid ++ i :: after := by
  obtain ⟨mid, hbefore, hys⟩ | ⟨mid, hxs, hafter⟩ := List.append_eq_append_iff.1 h
  · exact .inr ⟨mid, hbefore, hys⟩
  · cases mid with
    | nil =>
      rw [List.append_nil] at hxs
      exact .inr ⟨[], by rw [List.append_nil, hxs], hafter.symm⟩
    | cons j rest =>
      obtain ⟨rfl, -⟩ := List.cons.inj hafter
      exact .inl ⟨rest, hxs⟩

theorem runCode_append (xs ys : List (Instruction K)) (stack : List K) :
    runCode names slots x mode (xs ++ ys) stack =
      (runCode names slots x mode xs stack).bind (runCode names slots x mode ys) := by
  induction xs generalizing stack with
  | nil => rfl
  | cons i is ih =>
    rw [List.cons_append, runCode, runCode]
    cases i.step names slots x mode stack with
    | ok next => exact ih next
    | error e => rfl

variable (names slots x mode) in
/-- Wherever the code is cut, its steps so far leave the operands of the next one above the lowest
`base` values of the stack. -/
def FindsOperands (base : Nat) (code : List (Instruction K)) (stack : List K) : Prop :=
  ∀ before i after left, code = before ++ i :: after →
    runCode names slots x mode before stack = .ok left → base + i.operands ≤ left.length

theorem findsOperands_single {base : Nat} {i : Instruction K} {stack : List K}
    (h : base + i.operands ≤ stack.length) : FindsOperands names slots x mode base [i] stack := by
  intro before j after left hcode hrun
  cases before with
  | nil =>
    cases hcode
    cases hrun
    exact h
  | cons k ks => simp at hcode

theorem FindsOperands.append {base : Nat} {xs ys : List (Instruction K)} {stack : List K}
    (hxs : FindsOperands names slots x mode base xs stack)
    (hys : ∀ next, runCode names slots x mode xs stack = .ok next →
      FindsOperands names slots x mode base ys next) :
    FindsOperands names slots x mode base (xs ++ ys) stack := by
  intro before i after left hcode hrun
  obtain ⟨rest, hxs'⟩ | ⟨mid, rfl, hys'⟩ := split_of_append hcode
  · exact hxs before i rest left hxs' hrun
  · rw [runCode_append] at hrun
    cases hnext : runCode names slots x mode xs stack with
    | ok next =>
      rw [hnext] at hrun
      exact hys next hnext mid i after left hys' hrun
    | error e =>
      rw [hnext] at hrun
      cases hrun

/-- The code of a tree that runs to its end leaves the stack with one value more. -/
theorem exists_of_runCode_emit {a : Expr K} {vars : Vars K} {names all : List String}
    {stack left : List K} (hp : (Program.emit names a).names <+: all)
    (h : runCode all (all.map vars.get?) x mode (Program.emit names a).code stack = .ok left) :
    ∃ v, left = v :: stack := by
  have hrun := runCode_emit a x vars mode names all [] stack hp
  rw [List.append_nil, h] at hrun
  cases hv : a.eval x vars mode with
  | ok v =>
    rw [hv] at hrun
    cases hrun
    exact ⟨v, rfl⟩
  | error e =>
    rw [hv] at hrun
    cases hrun

/-- The code of a tree finds the operands of all its steps above the stack it starts on. -/
theorem findsOperands_emit (a : Expr K) (x : K) (vars : Vars K) (mode : EvalMode)
    (names all : List String) {base : Nat} {stack : List K}
    (hp : (Program.emit names a).names <+: all) (hbase : base ≤ stack.length) :
    FindsOperands all (all.map vars.get?) x mode base (Program.emit names a).code stack := by
  induction a generalizing names stack with
  | number v => exact findsOperands_single hbase
  | argument => exact findsOperands_single hbase
  | named n p => exact findsOperands_single hbase
  | neg a ih =>
    refine (ih names hp hbase).append fun next hnext => findsOperands_single ?_
    obtain ⟨v, rfl⟩ := exists_of_runCode_emit (a := a) hp hnext
    exact Nat.succ_le_succ hbase
  | binary op a b p iha ihb =>
    have hb := Program.names_prefix_emit (Program.emit names a).names b
    have hcode : (Program.emit names (.binary op a b p)).code = (Program.emit names a).code ++
        ((Program.emit (Program.emit names a).names b).code ++ [.binary op p]) :=
      List.append_assoc _ _ _
    rw [hcode]
    refine (iha names (hb.trans hp) hbase).append fun next hnext => ?_
    obtain ⟨v, rfl⟩ := exists_of_runCode_emit (hb.trans hp) hnext
    have hbase' : base ≤ (v :: stack).length := Nat.le_succ_of_le hbase
    refine (ihb _ hp hbase').append fun next hnext => findsOperands_single ?_
    obtain ⟨w, rfl⟩ := exists_of_runCode_emit (a := b) hp hnext
    exact Nat.succ_le_succ (Nat.succ_le_succ hbase)
  | call f a p ih =>
    refine (ih names hp hbase).append fun next hnext => findsOperands_single ?_
    obtain ⟨v, rfl⟩ := exists_of_runCode_emit (a := a) hp hnext
    exact Nat.succ_le_succ hbase

/-- After any part of the program of a tree, the operands of the step that follows lie on the
stack. -/
theorem operands_le_length {a : Expr K} {vars : Vars K} {code rest : List (Instruction K)}
    {i : Instruction K} (hcode : (Program.ofExpr a).code = code ++ i :: rest)
    (hrun : (runOn (Program.ofExpr a).names ((Program.ofExpr a).bind vars) x mode code []).1 =
      .ok ()) :
    i.operands ≤
      (runOn (Program.ofExpr a).names ((Program.ofExpr a).bind vars) x mode code []).2.length := by
  cases h : runCode (Program.ofExpr a).names ((Program.ofExpr a).bind vars) x mode code [] with
  | ok left =>
    rw [runOn_of_ok h]
    have hall := findsOperands_emit a x vars mode [] (Program.ofExpr a).names
      (List.prefix_refl _) (Nat.zero_le (([] : List K).length))
    have hle := hall code i rest left hcode h
    rwa [Nat.zero_add] at hle
  | error e =>
    obtain ⟨left, hon⟩ := runOn_of_error h
    rw [hon] at hrun
    cases hrun

end Formulary
