import Mathlib.Data.String.Basic
import Formulary.Proofs.Printing.LowerCase
import Formulary.Vars

/-!
# Tables keep their names apart

A table has its names in lower case and in ascending order, so that it binds each of them once,
whatever the case it was written in. Every change keeps this.

* `isReservedName_iff`: the two spellings of the argument.
* `Vars.IsTable vars`: the names are in lower case, none is the argument, and they ascend.
* `isTable_empty`, `isTable_set`, `isTable_setAll`, `isTable_remove`: tables are made of tables.
* `Vars.IsTable.find?_eq_some_iff`: a look-up finds exactly the bindings.
* **`Vars.IsTable.get?_eq`**: trying a name as it is written first makes no difference.
* **`Vars.IsTable.ext`**: a table is what it answers.
* `find?_setAll`: of several bindings made in turn the last one counts.
* **`Vars.IsTable.setAll_of_perm`**: the bindings of one table may be made in another one in any
  order.
* `find?_constants`, `ofList_of_perm`: the table of the constants.
-/

namespace Formulary

open Text

universe u

variable {K : Type u}

/-! ### The name of the argument -/

/-- Only the argument, of either case, is a reserved name. -/
theorem isReservedName_iff {name : String} :
    isReservedName name = true ↔ name = "x" ∨ name = "X" := by
  unfold isReservedName lowerString
  rw [beq_iff_eq]
  constructor
  · intro h
    have hlower : lower name.toList = ['x'] := by
      rw [← String.toList_ofList (l := lower name.toList), h]
      rfl
    have hletters : name.toList = ['x'] ∨ name.toList = ['X'] :=
      eq_of_lower_singleton (by decide) (by decide) (by decide +kernel) hlower
    rcases hletters with hname | hname
    · exact .inl (String.toList_inj.1 hname)
    · exact .inr (String.toList_inj.1 hname)
  · rintro (rfl | rfl)
    · decide +kernel
    · decide +kernel

theorem lowerString_ne_argumentName {name : String} (h : isReservedName name = false) :
    lowerString name ≠ argumentName :=
  fun hname => Bool.false_ne_true (h.symm.trans (beq_iff_eq.2 hname))

namespace Vars

/-- The names are in lower case, none is the argument, and they ascend. -/
structure IsTable (vars : Vars K) : Prop where
  lower : ∀ e ∈ vars.entries, lowerString e.1 = e.1
  ne_argument : ∀ e ∈ vars.entries, e.1 ≠ argumentName
  ascending : vars.entries.Pairwise fun d e => d.1 < e.1

/-! ### Changes -/

theorem eq_or_mem_of_mem_insertEntry {name : String} {value : K} {es : List (String × K)}
    {e : String × K} (h : e ∈ insertEntry name value es) : e = (name, value) ∨ e ∈ es := by
  induction es with
  | nil => exact .inl (List.mem_singleton.1 h)
  | cons d es ih =>
    obtain ⟨n, v⟩ := d
    rw [insertEntry] at h
    split at h
    · exact (List.mem_cons.1 h).imp id (List.mem_cons_of_mem _)
    · split at h
      · exact List.mem_cons.1 h
      · rcases List.mem_cons.1 h with rfl | h
        · exact .inr List.mem_cons_self
        · exact (ih h).imp id (List.mem_cons_of_mem _)

theorem pairwise_insertEntry (name : String) (value : K) {es : List (String × K)}
    (h : es.Pairwise fun d e => d.1 < e.1) :
    (insertEntry name value es).Pairwise fun d e => d.1 < e.1 := by
  induction es with
  | nil => exact List.pairwise_singleton _ _
  | cons d es ih =>
    obtain ⟨n, v⟩ := d
    obtain ⟨hbelow, hes⟩ := List.pairwise_cons.1 h
    rw [insertEntry]
    split
    · next heq =>
      subst heq
      exact List.pairwise_cons.2 ⟨hbelow, hes⟩
    · next hne =>
      split
      · next hlt =>
        refine List.pairwise_cons.2 ⟨fun e he => ?_, h⟩
        rcases List.mem_cons.1 he with rfl | he
        · exact hlt
        · exact lt_trans hlt (hbelow e he)
      · next hlt =>
        refine List.pairwise_cons.2 ⟨fun e he => ?_, ih hes⟩
        rcases eq_or_mem_of_mem_insertEntry he with rfl | he
        · exact lt_of_le_of_ne (not_lt.1 hlt) (Ne.symm hne)
        · exact hbelow e he

theorem isTable_empty : IsTable (empty : Vars K) :=
  ⟨fun _ h => (nomatch h), fun _ h => (nomatch h), .nil⟩

theorem isTable_set {vars : Vars K} (h : vars.IsTable) (name : String) (value : K) :
    (vars.set name value).IsTable := by
  unfold set
  split
  · exact h
  · next hname =>
    have hne := lowerString_ne_argumentName (Bool.eq_false_iff.2 hname)
    refine ⟨fun e he => ?_, fun e he => ?_, pairwise_insertEntry _ _ h.ascending⟩
    · rcases eq_or_mem_of_mem_insertEntry he with rfl | he
      · exact lowerString_lowerString name
      · exact h.lower e he
    · rcases eq_or_mem_of_mem_insertEntry he with rfl | he
      · exact hne
      · exact h.ne_argument e he

theorem isTable_setAll {vars : Vars K} (h : vars.IsTable) (items : List (String × K)) :
    (vars.setAll items).IsTable := by
  unfold setAll
  induction items generalizing vars with
  | nil => exact h
  | cons item items ih => exact ih (isTable_set h item.1 item.2)

theorem isTable_ofList (items : List (String × K)) : (ofList items).IsTable :=
  isTable_setAll isTable_empty items

theorem isTable_remove {vars : Vars K} (h : vars.IsTable) (name : String) :
    (vars.remove name).2.IsTable :=
  ⟨fun e he => h.lower e (List.mem_of_mem_filter he),
    fun e he => h.ne_argument e (List.mem_of_mem_filter he), h.ascending.filter _⟩

/-! ### Look-ups -/

namespace IsTable

variable {vars : Vars K}

/-- A look-up finds exactly the bindings. -/
theorem find?_eq_some_iff (h : vars.IsTable) {n : String} {v : K} :
    vars.find? n = some v ↔ (n, v) ∈ vars.entries := by
  obtain ⟨es⟩ := vars
  have hascending : es.Pairwise fun d e => d.1 < e.1 := h.ascending
  clear h
  simp only [find?]
  induction es with
  | nil => simp
  | cons e es ih =>
    obtain ⟨m, w⟩ := e
    obtain ⟨hbelow, hes⟩ : (∀ e ∈ es, m < e.1) ∧ _ := List.pairwise_cons.1 hascending
    rw [lookup_cons_eq_ite, List.mem_cons]
    split
    · next hn =>
      subst hn
      -- no later binding has the name
      have hrest : (n, v) ∉ es := fun hmem => lt_irrefl n (hbelow (n, v) hmem)
      simp [hrest, eq_comm]
    · next hn => simp [hn, ih hes]

theorem lowerString_of_find? (h : vars.IsTable) {n : String} {v : K}
    (hn : vars.find? n = some v) : lowerString n = n :=
  h.lower _ (h.find?_eq_some_iff.1 hn)

/-- The argument is in no table. -/
theorem find?_argumentName (h : vars.IsTable) : vars.find? argumentName = none := by
  rw [Option.eq_none_iff_forall_ne_some]
  exact fun v hv => h.ne_argument _ (h.find?_eq_some_iff.1 hv) rfl

/-- What is found under the name as it is written is what is found in lower case. -/
theorem find?_lowerString (h : vars.IsTable) {n : String} {v : K} (hn : vars.find? n = some v) :
    vars.find? (lowerString n) = some v := by
  rw [h.lowerString_of_find? hn, hn]

/-- Trying a name as it is written first makes no difference. -/
theorem get?_eq (h : vars.IsTable) (n : String) : vars.get? n = vars.find? (lowerString n) := by
  unfold get?
  cases hn : vars.find? n with
  | none => rfl
  | some v => exact (h.find?_lowerString hn).symm

/-- A table is what it answers. -/
theorem ext {other : Vars K} (h : vars.IsTable) (hother : other.IsTable)
    (heq : ∀ n, vars.find? n = other.find? n) : vars = other := by
  have hmem (e : String × K) : e ∈ vars.entries ↔ e ∈ other.entries := by
    obtain ⟨n, v⟩ := e
    rw [← h.find?_eq_some_iff, ← hother.find?_eq_some_iff, heq]
  have hnodup {es : List (String × K)} (hes : es.Pairwise fun d e => d.1 < e.1) : es.Nodup :=
    hes.imp fun hlt => ne_of_apply_ne Prod.fst (ne_of_lt hlt)
  -- ascending lists of the same bindings are one list
  have hperm : vars.entries.Perm other.entries :=
    (List.perm_ext_iff_of_nodup (hnodup h.ascending) (hnodup hother.ascending)).2 hmem
  have hentries : vars.entries = other.entries :=
    List.Perm.eq_of_pairwise (fun d e _ _ hde hed => absurd hed (lt_asymm hde))
      h.ascending hother.ascending hperm
  cases vars
  cases other
  exact congrArg Vars.mk hentries

end IsTable

/-! ### Several bindings -/

/-- The value that bindings made in turn give to a name in lower case: the last one counts, and
the argument gets none. -/
def lastOf? (items : List (String × K)) (n : String) : Option K :=
  items.reverse.findSome? fun item =>
    if !isReservedName item.1 && lowerString item.1 == n then some item.2 else none

theorem lastOf?_cons (item : String × K) (items : List (String × K)) (n : String) :
    lastOf? (item :: items) n = (lastOf? items n).or
      (if !isReservedName item.1 && lowerString item.1 == n then some item.2 else none) := by
  unfold lastOf?
  rw [List.reverse_cons, List.findSome?_append, List.findSome?_singleton]

/-- Of several bindings the last one counts, before all that the table had. -/
theorem find?_setAll (vars : Vars K) (items : List (String × K)) (n : String) :
    (vars.setAll items).find? n = (lastOf? items n).or (vars.find? n) := by
  unfold setAll
  induction items generalizing vars with
  | nil => rfl
  | cons item items ih =>
    rw [List.foldl_cons, ih, lastOf?_cons, find?_set, Option.or_assoc]
    congr 1
    cases isReservedName item.1 with
    | true => simp
    | false =>
      by_cases hn : n = lowerString item.1
      · simp [hn]
      · simp [hn, Ne.symm hn]

/-- The bindings of a table give what the table does, in whatever order they are made. -/
theorem IsTable.lastOf?_of_perm {vars : Vars K} (h : vars.IsTable) {items : List (String × K)}
    (hperm : items.Perm vars.entries) (n : String) : lastOf? items n = vars.find? n := by
  have hitem {v : K} (hv : (n, v) ∈ vars.entries) :
      (!isReservedName n && lowerString n == n) = true := by
    have hlower : lowerString n = n := h.lower _ hv
    have hne : n ≠ argumentName := h.ne_argument _ hv
    simp [isReservedName, hlower, hne]
  -- each name has one binding, and so the last one made is the only one
  have hfound {v : K} (hv : lastOf? items n = some v) : vars.find? n = some v := by
    obtain ⟨item, hmem, hitem⟩ := List.exists_of_findSome?_eq_some hv
    obtain ⟨hcond, hvalue⟩ := Option.ite_none_right_eq_some.1 hitem
    have hname : lowerString item.1 = n := beq_iff_eq.1 (Bool.and_eq_true_iff.1 hcond).2
    have hentry : item ∈ vars.entries := hperm.mem_iff.1 (List.mem_reverse.1 hmem)
    rw [h.find?_eq_some_iff, ← hname, h.lower _ hentry, ← Option.some.inj hvalue]
    exact hentry
  cases hlast : lastOf? items n with
  | some v => exact (hfound hlast).symm
  | none =>
    rw [eq_comm, Option.eq_none_iff_forall_ne_some]
    intro v hv
    have hentry := h.find?_eq_some_iff.1 hv
    have hnone := List.findSome?_eq_none_iff.1 hlast (n, v)
      (List.mem_reverse.2 (hperm.mem_iff.2 hentry))
    rw [if_pos (hitem hentry)] at hnone
    cases hnone

theorem IsTable.find?_setAll_of_perm {target source : Vars K} (hsource : source.IsTable)
    {items : List (String × K)} (hperm : items.Perm source.entries) (n : String) :
    (target.setAll items).find? n = (source.find? n).or (target.find? n) := by
  rw [find?_setAll, hsource.lastOf?_of_perm hperm]

/-- The bindings of one table may be made in another one in any order. -/
theorem IsTable.setAll_of_perm {target source : Vars K} (htarget : target.IsTable)
    (hsource : source.IsTable) {items : List (String × K)} (hperm : items.Perm source.entries) :
    target.setAll items = target.setAll source.entries := by
  refine (isTable_setAll htarget items).ext (isTable_setAll htarget source.entries) fun n => ?_
  rw [hsource.find?_setAll_of_perm hperm, hsource.find?_setAll_of_perm (List.Perm.refl _)]

end Vars

/-! ### The constants -/

variable {R : Type u} [RealArith R]

theorem isTable_constants : (⟨constants⟩ : Vars (Complex R)).IsTable := by
  have hnames : (constants (R := R)).map Prod.fst = ["e", "phi", "pi"] := rfl
  have hname {e : String × Complex R} (he : e ∈ constants) : e.1 ∈ ["e", "phi", "pi"] :=
    hnames ▸ List.mem_map_of_mem he
  have hlower : ∀ n ∈ ["e", "phi", "pi"], lowerString n = n ∧ n ≠ argumentName := by decide +kernel
  have hascending : ["e", "phi", "pi"].Pairwise (· < ·) := by decide +kernel
  refine ⟨fun e he => (hlower e.1 (hname he)).1, fun e he => (hlower e.1 (hname he)).2, ?_⟩
  rw [← hnames] at hascending
  exact List.pairwise_map.1 hascending

/-- The constants may be bound in any order. -/
theorem ofList_of_perm {seeds : List (String × Complex R)} (h : seeds.Perm constants) :
    Vars.ofList seeds = Vars.constants := by
  unfold Vars.constants Vars.ofList
  exact Vars.isTable_empty.setAll_of_perm isTable_constants h

theorem find?_constants (n : String) :
    (Vars.constants : Vars (Complex R)).find? n = constant? n := by
  unfold Vars.constants Vars.ofList
  rw [isTable_constants.find?_setAll_of_perm (List.Perm.refl constants) n]
  exact Option.or_none

end Formulary
