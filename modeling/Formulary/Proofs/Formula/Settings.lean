import Formulary.Binary64.Arith
import Formulary.Formula.Setting
import Formulary.Proofs.Grammar.Rejects
import Formulary.Proofs.Vars.Requests

/-!
# Formulas of settings

Of several settings of one thing the last one counts, and a binding of the settings counts before the
constant of the same name. A table hands its bindings over in an order of its own, and this order
does not matter.

* `Setting.bound?`, `Setting.dropsConstants`, `Setting.simplify?`, `Setting.simplifyDerivatives?`:
  what one setting says.
* `Setting.last?`: what the last of several settings says.
* `Setting.IsSound`: the table of a setting is one.
* `find?_ofSettings`, `constants_ofSettings`, `simplifies_ofSettings`,
  `simplifiesDerivatives_ofSettings`: what the settings come to.
* `Options.Takes`, `Options.TakesAll`, `Formula.Builds`: the settings, with the bindings of tables
  in any order.
* `takesAll_iff`, `builds_iff`: the order makes no difference.
* **`build_settings`**: the formula of a text under settings.
-/

namespace Formulary

open RealArith Text

universe u

variable {R : Type u}

/-! ### One setting -/

namespace Setting

/-- The value that a setting binds to a name in lower case. -/
def bound? (n : String) : Setting R → Option (Complex R)
  | binding name value => if lowerString name = n then some value else none
  | bindings vars => vars.get? n
  | _ => none

/-- The setting leaves the constants out. -/
def dropsConstants : Setting R → Bool
  | withoutConstants => true
  | _ => false

/-- Whether the tree is to be simplified, if the setting says so. -/
def simplify? : Setting R → Option Bool
  | simplify enabled => some enabled
  | _ => none

/-- Whether derivatives are to be simplified, if the setting says so. -/
def simplifyDerivatives? : Setting R → Option Bool
  | simplifyDerivatives enabled => some enabled
  | _ => none

/-- What the last setting says that says something. -/
def last? {α : Type*} (says? : Setting R → Option α) (settings : List (Setting R)) : Option α :=
  settings.reverse.findSome? says?

theorem last?_concat {α : Type*} (says? : Setting R → Option α) (settings : List (Setting R))
    (s : Setting R) : last? says? (settings ++ [s]) = (says? s).or (last? says? settings) := by
  unfold last?
  rw [List.reverse_concat, List.findSome?_cons]
  cases says? s with
  | none => rfl
  | some v => rfl

/-- The table of the setting, if it has one, binds each name once. -/
def IsSound (s : Setting R) : Prop :=
  ∀ vars, s = bindings vars → vars.IsTable

end Setting

/-! ### What settings come to -/

namespace Options

theorem isTable_add {o : Options R} (h : o.bindings.IsTable) (s : Setting R) :
    (o.add s).bindings.IsTable := by
  cases s with
  | binding name value => exact Vars.isTable_set h name value
  | bindings vars => exact Vars.isTable_setAll h vars.entries
  | withoutConstants => exact h
  | simplify enabled => exact h
  | simplifyDerivatives enabled => exact h

/-- A setting binds names before all that was bound. -/
theorem find?_add (o : Options R) {s : Setting R} (hs : s.IsSound) {n : String}
    (hlower : lowerString n = n) (hne : n ≠ argumentName) :
    (o.add s).bindings.find? n = (s.bound? n).or (o.bindings.find? n) := by
  cases s with
  | binding name value =>
    change (o.bindings.set name value).find? n = _
    rw [Vars.find?_set, Setting.bound?]
    by_cases hn : lowerString name = n
    · have hname : isReservedName name = false := by simp [isReservedName, hn, hne]
      simp [hname, hn]
    · simp [hn, Ne.symm hn]
  | bindings vars =>
    have hvars := hs vars rfl
    change (o.bindings.setAll vars.entries).find? n = _
    rw [hvars.find?_setAll_of_perm (List.Perm.refl _), Setting.bound?, hvars.get?_eq, hlower]
  | withoutConstants => rfl
  | simplify enabled => rfl
  | simplifyDerivatives enabled => rfl

theorem constants_add (o : Options R) (s : Setting R) :
    (o.add s).constants = (o.constants && !s.dropsConstants) := by
  cases s with
  | withoutConstants => exact (Bool.and_false _).symm
  | _ => exact (Bool.and_true _).symm

theorem simplifies_add (o : Options R) (s : Setting R) :
    (o.add s).simplifies = s.simplify?.getD o.simplifies := by
  cases s <;> rfl

theorem simplifiesDerivatives_add (o : Options R) (s : Setting R) :
    (o.add s).simplifiesDerivatives = s.simplifyDerivatives?.getD o.simplifiesDerivatives := by
  cases s <;> rfl

theorem ofSettings_concat (settings : List (Setting R)) (s : Setting R) :
    ofSettings (settings ++ [s]) = (ofSettings settings).add s := by
  unfold ofSettings
  rw [List.foldl_concat]

theorem isTable_ofSettings (settings : List (Setting R)) :
    (ofSettings settings).bindings.IsTable := by
  induction settings using List.reverseRecOn with
  | nil => exact Vars.isTable_empty
  | append_singleton settings s ih =>
    rw [ofSettings_concat]
    exact isTable_add ih s

/-- The last binding of a name counts. -/
theorem find?_ofSettings {settings : List (Setting R)} (h : ∀ s ∈ settings, s.IsSound) {n : String}
    (hlower : lowerString n = n) (hne : n ≠ argumentName) :
    (ofSettings settings).bindings.find? n = Setting.last? (Setting.bound? n) settings := by
  -- settings are taken in turn, and the last one comes before what the others bound
  induction settings using List.reverseRecOn with
  | nil => rfl
  | append_singleton settings s ih =>
    have hsettings : ∀ t ∈ settings, t.IsSound := fun t ht => h t (List.mem_append_left _ ht)
    have hs : s.IsSound := h s (List.mem_append_right _ (List.mem_singleton_self s))
    rw [ofSettings_concat, find?_add _ hs hlower hne, ih hsettings, Setting.last?_concat]

/-- The constants are left out if one setting says so. -/
theorem constants_ofSettings (settings : List (Setting R)) :
    (ofSettings settings).constants = !settings.any Setting.dropsConstants := by
  induction settings using List.reverseRecOn with
  | nil => rfl
  | append_singleton settings s ih =>
    rw [ofSettings_concat, constants_add, ih, List.any_append, List.any_cons, List.any_nil,
      Bool.or_false, Bool.not_or]

theorem simplifies_ofSettings (settings : List (Setting R)) :
    (ofSettings settings).simplifies = (Setting.last? Setting.simplify? settings).getD false := by
  induction settings using List.reverseRecOn with
  | nil => rfl
  | append_singleton settings s ih =>
    rw [ofSettings_concat, simplifies_add, ih, Setting.last?_concat, Option.getD_or]

theorem simplifiesDerivatives_ofSettings (settings : List (Setting R)) :
    (ofSettings settings).simplifiesDerivatives =
      (Setting.last? Setting.simplifyDerivatives? settings).getD true := by
  induction settings using List.reverseRecOn with
  | nil => rfl
  | append_singleton settings s ih =>
    rw [ofSettings_concat, simplifiesDerivatives_add, ih, Setting.last?_concat, Option.getD_or]

end Options

/-! ### Any order of the bindings -/

/-- What a setting makes of options if a table hands over its bindings in some order. -/
def Options.Takes (o : Options R) : Setting R → Options R → Prop
  | .bindings vars, o' => ∃ items : List (String × Complex R), items.Perm vars.entries ∧
      o' = { o with bindings := o.bindings.setAll items }
  | s, o' => o' = o.add s

/-- What settings make of options if tables hand over their bindings in some order. -/
def Options.TakesAll (o : Options R) : List (Setting R) → Options R → Prop
  | [], o' => o' = o
  | s :: settings, o' => ∃ next, o.Takes s next ∧ next.TakesAll settings o'

theorem Options.takes_iff {o o' : Options R} (h : o.bindings.IsTable) {s : Setting R}
    (hs : s.IsSound) : o.Takes s o' ↔ o' = o.add s := by
  cases s with
  | bindings vars =>
    constructor
    · rintro ⟨items, hperm, rfl⟩
      rw [h.setAll_of_perm (hs vars rfl) hperm]
      rfl
    · rintro rfl
      exact ⟨vars.entries, List.Perm.refl _, rfl⟩
  | _ => exact Iff.rfl

/-- The settings come to the same whatever the order of the bindings. -/
theorem Options.takesAll_iff {o o' : Options R} (h : o.bindings.IsTable)
    {settings : List (Setting R)} (hsettings : ∀ s ∈ settings, s.IsSound) :
    o.TakesAll settings o' ↔ o' = settings.foldl add o := by
  -- after each setting the bindings are a table again, which makes its next order irrelevant
  induction settings generalizing o with
  | nil => exact Iff.rfl
  | cons s settings ih =>
    obtain ⟨hs, hrest⟩ := List.forall_mem_cons.1 hsettings
    have hnext := ih (isTable_add h s) hrest
    constructor
    · rintro ⟨next, htakes, hall⟩
      rw [(takes_iff h hs).1 htakes] at hall
      exact hnext.1 hall
    · intro ho'
      exact ⟨o.add s, (takes_iff h hs).2 rfl, hnext.2 ho'⟩

section

variable [RealArith R]

/-- A formula of a tree under settings, if tables and the constants hand over their bindings in some
order. -/
def Formula.Builds (root : Expr (Complex R)) (settings : List (Setting R)) (f : Formula R) : Prop :=
  ∃ (o : Options R) (seeds items : List (String × Complex R)),
    Options.initial.TakesAll settings o ∧ seeds.Perm constants ∧ items.Perm o.bindings.entries ∧
      f = ⟨if o.simplifies then root.simplify else root,
        (if o.constants then Vars.ofList seeds else .empty).setAll items, o.simplifiesDerivatives⟩

/-! ### The formula -/

theorem Options.isTable_seeds (o : Options R) :
    (if o.constants then Vars.constants else .empty : Vars (Complex R)).IsTable := by
  split
  · exact Vars.isTable_ofList Formulary.constants
  · exact Vars.isTable_empty

/-- The tables may hand over their bindings in any order. -/
theorem Formula.builds_iff {s : String} {root : Expr (Complex R)} {settings : List (Setting R)}
    {f g : Formula R} (hsettings : ∀ s ∈ settings, s.IsSound) (hs : Formulary.parse s = .ok root)
    (hf : Formula.build s settings = .ok f) : Formula.Builds root settings g ↔ g = f := by
  unfold Formula.build at hf
  rw [hs] at hf
  cases hf
  constructor
  · rintro ⟨o, seeds, items, hall, hseeds, hitems, rfl⟩
    obtain rfl : o = Options.ofSettings settings :=
      (Options.takesAll_iff Vars.isTable_empty hsettings).1 hall
    rw [ofList_of_perm hseeds,
      (Options.isTable_seeds _).setAll_of_perm (Options.isTable_ofSettings settings) hitems]
    rfl
  · rintro rfl
    exact ⟨Options.ofSettings settings, constants, (Options.ofSettings settings).bindings.entries,
      (Options.takesAll_iff Vars.isTable_empty hsettings).2 rfl, List.Perm.refl _,
      List.Perm.refl _, rfl⟩

/-- What the table of the settings binds, before the constants. -/
theorem Options.find?_table (settings : List (Setting R)) (hsettings : ∀ s ∈ settings, s.IsSound)
    {n : String} (hlower : lowerString n = n) (hne : n ≠ argumentName) :
    (ofSettings settings).table.find? n = (Setting.last? (Setting.bound? n) settings).or
      (if settings.any Setting.dropsConstants then none else constant? n) := by
  unfold table
  rw [(isTable_ofSettings settings).find?_setAll_of_perm (List.Perm.refl _),
    find?_ofSettings hsettings hlower hne, constants_ofSettings]
  cases settings.any Setting.dropsConstants with
  | true => rfl
  | false => exact congrArg _ (find?_constants n)

/-- **The settings of a formula.** The formula of a text under settings gives every name its last
binding, else the constant of that name unless some setting drops the constants, else nothing, and
the argument gets nothing. Its tree is simplified if the last setting about it says so. All this is
the same in whatever order the tables hand over their bindings. -/
theorem build_settings {s : String} {root : Expr (Complex R)} {settings : List (Setting R)}
    (hs : parse s = .ok root)
    (hvars : ∀ vars, Setting.bindings vars ∈ settings →
      ∃ requests, vars = Vars.ofRequests requests) :
    ∃ f, Formula.build s settings = .ok f ∧
      (∀ g, Formula.Builds root settings g ↔ g = f) ∧
      (∀ name, f.vars.get? name =
        if lowerString name = argumentName then none
        else (Setting.last? (Setting.bound? (lowerString name)) settings).or
          (if settings.any Setting.dropsConstants then none else constant? (lowerString name))) ∧
      f.root = (if (Setting.last? Setting.simplify? settings).getD false then root.simplify
        else root) ∧
      f.simplifiesDerivatives = (Setting.last? Setting.simplifyDerivatives? settings).getD true := by
  have hsettings : ∀ s ∈ settings, s.IsSound := by
    rintro s hmem vars rfl
    obtain ⟨requests, rfl⟩ := hvars vars hmem
    exact (represents_ofRequests requests).isTable
  have hbuild : Formula.build s settings = .ok
      ⟨if (Options.ofSettings settings).simplifies then root.simplify else root,
        (Options.ofSettings settings).table, (Options.ofSettings settings).simplifiesDerivatives⟩ := by
    unfold Formula.build
    rw [hs]
    rfl
  have htable : (Options.ofSettings settings).table.IsTable :=
    Vars.isTable_setAll (Options.isTable_seeds _) _
  refine ⟨_, hbuild, fun g => Formula.builds_iff hsettings hs hbuild, fun name => ?_, ?_, ?_⟩
  · rw [htable.get?_eq]
    split
    · next hname => rw [hname, htable.find?_argumentName]
    · next hname =>
      exact Options.find?_table settings hsettings (lowerString_lowerString name) hname
  · rw [Options.simplifies_ofSettings]
  · exact Options.simplifiesDerivatives_ofSettings settings

/-- Of two values of `a` the later one counts, `pi` keeps the value it is given, and no other
constant is bound. -/
theorem build_settings_double :
    ∃ (f : Formula Double) (settings : List (Setting Double)),
      settings = [.binding "PI" .unit, .withoutConstants, .simplify true,
        .bindings (Vars.ofRequests [.insert [("A", .ofReal 0), ("X", .unit)]]), .simplify false,
        .binding "a" (.ofReal 1)] ∧
      Formula.build "a" settings = .ok f ∧ f.root = .named "a" (some 0) ∧
      f.vars.get? "A" = some (.ofReal 1) ∧ f.vars.get? "pi" = some .unit ∧
      f.vars.get? "phi" = none ∧ f.vars.get? "x" = none := by
  have hs : parse "a" = .ok (.named "a" (some 0) : Expr (Complex Double)) := by
    have hwritten : written "a" = [⟨⟨.word, ['a']⟩, 0⟩] := by decide +kernel
    refine parse_of_denotes ?_
    rw [hwritten]
    exact .ofTerm (.ofPower (.ofUnary (.ofPrimary (.name (by decide +kernel) (by decide +kernel)))))
  have hvars : ∀ vars, Setting.bindings vars ∈ [.binding "PI" .unit, .withoutConstants,
      .simplify true, .bindings (Vars.ofRequests [.insert [("A", .ofReal 0), ("X", .unit)]]),
      .simplify false, .binding "a" (.ofReal (1 : Double))] →
      ∃ requests, vars = Vars.ofRequests requests := by
    intro vars hmem
    simp only [List.mem_cons, List.not_mem_nil, reduceCtorEq, false_or, or_false,
      Setting.bindings.injEq] at hmem
    exact ⟨_, hmem⟩
  have hlower : lowerString "A" = "a" ∧ lowerString "a" = "a" ∧ lowerString "PI" = "pi" ∧
      lowerString "pi" = "pi" := by
    decide +kernel
  obtain ⟨hA, ha, hPI, hpi⟩ := hlower
  have hnone : (Vars.ofRequests [.insert [("A", .ofReal (0 : Double)), ("X", .unit)]]).get? "pi" =
      none := by
    decide +kernel
  obtain ⟨f, hf, -, hget, hroot, -⟩ := build_settings hs hvars
  refine ⟨f, _, rfl, hf, hroot, ?_, ?_, ?_, ?_⟩
  · rw [hget, hA, if_neg (by decide)]
    simp [Setting.last?, Setting.bound?, ha]
  · rw [hget, hpi, if_neg (by decide)]
    simp [Setting.last?, Setting.bound?, List.findSome?_cons, ha, hPI, hnone]
  · rw [hget]
    decide +kernel
  · rw [hget]
    decide +kernel

end

end Formulary
