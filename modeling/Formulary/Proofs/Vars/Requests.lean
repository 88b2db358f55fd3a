import Mathlib.Data.Finmap
import Formulary.Proofs.Vars.Tables

/-!
# A table is a finite map

After any requests a table answers as a finite map from names in lower case does, in which the last
binding of a name counts and the argument is not bound.

* `Request R`: what a table can be asked to do; `Vars.handle` does it.
* `Bindings R`: the finite map, and `Bindings.handle` what a request does to it.
* `Vars.Represents vars m`: the table has the bindings of the map.
* `represents_handle`, `represents_ofRequests`: one request and any list of requests keep this.
* `Vars.Answers vars m`: the table answers as the map does.
* **`answers_ofRequests`**: the names of a table after any requests, and its answers.
-/

namespace Formulary

open Text

universe u

/-- What a table can be asked to do. -/
inductive Request (R : Type u) where
  /-- Begin again with the constants. -/
  | constants
  /-- Begin again without bindings. -/
  | empty
  /-- Begin again with bindings made in turn. -/
  | collect (items : List (String × Complex R))
  | set (name : String) (value : Complex R)
  /-- Make several bindings in turn. -/
  | insert (items : List (String × Complex R))
  | remove (name : String)
  | clear
  deriving Repr

/-- A finite map from names. -/
abbrev Bindings (R : Type u) :=
  Finmap fun _ : String => Complex R

variable {R : Type u}

/-- Binds a name in lower case, over what it had; the two spellings of the argument are left out. -/
def Bindings.bind (m : Bindings R) (name : String) (value : Complex R) : Bindings R :=
  if name = "x" ∨ name = "X" then m else Finmap.insert (lowerString name) value m

/-- Binds names in turn. -/
def Bindings.bindAll (m : Bindings R) (items : List (String × Complex R)) : Bindings R :=
  items.foldl (fun m item => m.bind item.1 item.2) m

section

variable [RealArith R]

/-- The table after a request. -/
def Vars.handle (vars : Vars (Complex R)) : Request R → Vars (Complex R)
  | .constants => .constants
  | .empty => .empty
  | .collect items => .ofList items
  | .set name value => vars.set name value
  | .insert items => vars.setAll items
  | .remove name => (vars.remove name).2
  | .clear => vars.clear

/-- The table after requests in turn, the first one to a table without bindings. -/
def Vars.ofRequests (requests : List (Request R)) : Vars (Complex R) :=
  requests.foldl Vars.handle .empty

/-- The finite map after a request. -/
def Bindings.handle (m : Bindings R) : Request R → Bindings R
  | .constants =>
    Finmap.insert "pi" (.ofReal RealArith.pi)
      (Finmap.insert "phi" (.ofReal RealArith.golden)
        (Finmap.insert "e" (.ofReal RealArith.euler) ∅))
  | .empty => ∅
  | .collect items => Bindings.bindAll ∅ items
  | .set name value => m.bind name value
  | .insert items => m.bindAll items
  | .remove name => Finmap.erase (lowerString name) m
  | .clear => ∅

/-- The finite map after requests in turn. -/
def Bindings.ofRequests (requests : List (Request R)) : Bindings R :=
  requests.foldl Bindings.handle ∅

end

/-! ### Representing a map -/

/-- The table has the bindings of the map. -/
structure Vars.Represents (vars : Vars (Complex R)) (m : Bindings R) : Prop where
  isTable : vars.IsTable
  find? : ∀ n, vars.find? n = m.lookup n

theorem represents_empty : Vars.empty.Represents (∅ : Bindings R) where
  isTable := Vars.isTable_empty
  find? n := by
    rw [Finmap.lookup_empty]
    rfl

theorem represents_bind {vars : Vars (Complex R)} {m : Bindings R} (h : vars.Represents m)
    (name : String) (value : Complex R) : (vars.set name value).Represents (m.bind name value) := by
  refine ⟨Vars.isTable_set h.isTable name value, fun n => ?_⟩
  unfold Bindings.bind
  rw [Vars.find?_set]
  by_cases hname : isReservedName name = true
  · rw [if_pos hname, if_pos (isReservedName_iff.1 hname)]
    exact h.find? n
  · rw [if_neg hname, if_neg (mt isReservedName_iff.2 hname)]
    split
    · next hn =>
      subst hn
      exact (Finmap.lookup_insert m).symm
    · next hn =>
      rw [Finmap.lookup_insert_of_ne m hn]
      exact h.find? n

theorem represents_bindAll {vars : Vars (Complex R)} {m : Bindings R} (h : vars.Represents m)
    (items : List (String × Complex R)) : (vars.setAll items).Represents (m.bindAll items) := by
  unfold Vars.setAll Bindings.bindAll
  induction items generalizing vars m with
  | nil => exact h
  | cons item items ih => exact ih (represents_bind h item.1 item.2)

theorem represents_remove {vars : Vars (Complex R)} {m : Bindings R} (h : vars.Represents m)
    (name : String) : (vars.remove name).2.Represents (Finmap.erase (lowerString name) m) := by
  refine ⟨Vars.isTable_remove h.isTable name, fun n => ?_⟩
  rw [Vars.find?_remove]
  split
  · next hn =>
    subst hn
    exact (Finmap.lookup_erase _ m).symm
  · next hn =>
    rw [Finmap.lookup_erase_ne hn]
    exact h.find? n

/-! ### Requests -/

variable [RealArith R]

theorem represents_constants (m : Bindings R) :
    (Vars.constants : Vars (Complex R)).Represents (m.handle .constants) := by
  have h := represents_bindAll represents_empty (Formulary.constants (R := R))
  have hlower : lowerString "e" = "e" ∧ lowerString "phi" = "phi" ∧ lowerString "pi" = "pi" := by
    decide +kernel
  obtain ⟨he, hphi, hpi⟩ := hlower
  simpa [Vars.constants, Vars.ofList, Bindings.handle, Bindings.bindAll, Bindings.bind,
    Formulary.constants, eulerName, he, hphi, hpi] using h

/-- One request keeps the table and the map together. -/
theorem represents_handle {vars : Vars (Complex R)} {m : Bindings R} (h : vars.Represents m)
    (request : Request R) : (vars.handle request).Represents (m.handle request) := by
  cases request with
  | constants => exact represents_constants m
  | empty => exact represents_empty
  | collect items => exact represents_bindAll represents_empty items
  | set name value => exact represents_bind h name value
  | insert items => exact represents_bindAll h items
  | remove name => exact represents_remove h name
  | clear => exact represents_empty

theorem represents_ofRequests (requests : List (Request R)) :
    (Vars.ofRequests requests).Represents (Bindings.ofRequests requests) := by
  unfold Vars.ofRequests Bindings.ofRequests
  induction requests using List.reverseRecOn with
  | nil => exact represents_empty
  | append_singleton requests request ih =>
    rw [List.foldl_concat, List.foldl_concat]
    exact represents_handle ih request

/-! ### Answers -/

omit [RealArith R] in
theorem Vars.Represents.size_eq {vars : Vars (Complex R)} {m : Bindings R}
    (h : vars.Represents m) : vars.size = m.keys.card := by
  have hnodup : (vars.entries.map Prod.fst).Nodup :=
    List.pairwise_map.2 (h.isTable.ascending.imp ne_of_lt)
  have hkeys : m.keys = (vars.entries.map Prod.fst).toFinset := by
    ext n
    rw [Finmap.mem_keys, Finmap.mem_iff, List.mem_toFinset, List.mem_map]
    constructor
    · rintro ⟨v, hv⟩
      rw [← h.find?] at hv
      exact ⟨(n, v), h.isTable.find?_eq_some_iff.1 hv, rfl⟩
    · rintro ⟨⟨_, v⟩, hmem, rfl⟩
      exact ⟨v, (h.find? _).symm.trans (h.isTable.find?_eq_some_iff.2 hmem)⟩
  rw [hkeys, List.toFinset_card_of_nodup hnodup, List.length_map]
  rfl

/-- The table answers as the map does. -/
structure Vars.Answers (vars : Vars (Complex R)) (m : Bindings R) : Prop where
  get? : ∀ name, vars.get? name = m.lookup (lowerString name)
  contains : ∀ name, vars.contains name = true ↔ lowerString name ∈ m
  remove : ∀ name, (vars.remove name).1 = m.lookup (lowerString name)
  size : vars.size = m.keys.card
  isEmpty : vars.isEmpty = true ↔ m = ∅

omit [RealArith R] in
theorem Vars.Represents.answers {vars : Vars (Complex R)} {m : Bindings R}
    (h : vars.Represents m) : vars.Answers m where
  get? name := (h.isTable.get?_eq name).trans (h.find? _)
  contains name := by
    rw [Vars.contains, h.find?, Finmap.lookup_isSome]
  remove name := h.find? _
  size := h.size_eq
  isEmpty := by
    rw [Vars.isEmpty, List.isEmpty_iff_length_eq_zero, ← Vars.size, h.size_eq,
      Finset.card_eq_zero]
    constructor
    · intro hkeys
      refine Finmap.ext_lookup fun n => ?_
      rw [Finmap.lookup_empty, Finmap.lookup_eq_none, ← Finmap.mem_keys, hkeys]
      exact Finset.notMem_empty n
    · rintro rfl
      exact Finmap.keys_empty

/-- **A table is a finite map from names in lower case.** After any requests every name of the table
is its own lower case and none is the argument; looking a name up as it is written never gives
anything else than looking it up in lower case; and all answers are those of the map. -/
theorem answers_ofRequests (requests : List (Request R)) :
    (∀ e ∈ (Vars.ofRequests requests).entries, lowerString e.1 = e.1 ∧ e.1 ≠ "x") ∧
    (∀ name value, (Vars.ofRequests requests).find? name = some value →
      (Vars.ofRequests requests).find? (lowerString name) = some value) ∧
    (Vars.ofRequests requests).Answers (Bindings.ofRequests requests) := by
  have h := represents_ofRequests requests
  exact ⟨fun e he => ⟨h.isTable.lower e he, h.isTable.ne_argument e he⟩,
    fun _ _ => h.isTable.find?_lowerString, h.answers⟩

end Formulary
