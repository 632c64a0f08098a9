import Woody.Foundation.Bytes
import Std.Data.ExtTreeMap

/-!
# Strings and string maps

String literals as bytes, and `std::map<std::string, std::string>`: its order
is that of the bytes, `insert` keeps an existing entry and `operator[]`
replaces it.
-/

namespace Woody

/-- The bytes of an ASCII literal. -/
def ascii (literal : String) : Bytes :=
  literal.toList.map fun char => UInt8.ofNat char.toNat

def lowerCase (text : Bytes) : Bytes :=
  text.map fun c => if 65 ≤ c ∧ c ≤ 90 then c + 32 else c

abbrev StringMap := Std.ExtTreeMap Bytes Bytes compare

namespace StringMap

/-- `map.insert(pair(name, value))`. -/
def insertPair (map : StringMap) (name value : Bytes) : StringMap :=
  map.insertIfNew name value

/-- `map[name] = value`. -/
def assign (map : StringMap) (name value : Bytes) : StringMap :=
  map.insert name value

/-- `map.find(name)`. -/
def find (map : StringMap) (name : Bytes) : Option Bytes := map[name]?

/-- `map[name] = value` for all entries in order. -/
def assignAll (map : StringMap) (entries : List (Bytes × Bytes)) :
    StringMap :=
  entries.foldl (fun map entry => map.assign entry.1 entry.2) map

/-- `insert` applied to all entries in order. -/
def insertAll (map : StringMap) (entries : List (Bytes × Bytes)) :
    StringMap :=
  entries.foldl (fun map entry => map.insertPair entry.1 entry.2) map

theorem find_insertPair (map : StringMap) (name value other : Bytes) :
    (map.insertPair name value).find other =
      (map.find other).or (if other = name then some value else none) := by
  unfold find insertPair
  simp only [Std.ExtTreeMap.getElem?_insertIfNew, Std.compare_eq_iff_eq]
  cases found : map[other]? with
  | none =>
      have absent : ¬ other ∈ map := by
        rw [Std.ExtTreeMap.mem_iff_isSome_getElem?, found]
        simp
      by_cases same : name = other
      · subst other
        simp [absent]
      · simp [same, Ne.symm same]
  | some value =>
      have present : other ∈ map := by
        rw [Std.ExtTreeMap.mem_iff_isSome_getElem?, found]
        rfl
      rw [if_neg fun fresh => fresh.2 (fresh.1 ▸ present)]
      rfl

theorem find_assign (map : StringMap) (name value other : Bytes) :
    (map.assign name value).find other =
      if other = name then some value else map.find other := by
  unfold find assign
  simp only [Std.ExtTreeMap.getElem?_insert, Std.compare_eq_iff_eq]
  simp only [eq_comm]

theorem find_assignAll (map : StringMap) (entries : List (Bytes × Bytes))
    (name : Bytes) :
    (map.assignAll entries).find name =
      (entries.reverse.lookup name).or (map.find name) := by
  induction entries generalizing map with
  | nil => rfl
  | cons entry entries ih =>
      have step : map.assignAll (entry :: entries) =
          (map.assign entry.1 entry.2).assignAll entries := rfl
      rw [step, ih, find_assign, List.reverse_cons, List.lookup_append,
        Option.or_assoc, List.lookup_singleton]
      congr 1
      by_cases same : name = entry.1
      · simp [same]
      · simp [same]

theorem lookup_cons_eq (entry : Bytes × Bytes) (entries : List (Bytes × Bytes))
    (name : Bytes) :
    (entry :: entries).lookup name =
      if name = entry.1 then some entry.2 else entries.lookup name := by
  rw [List.lookup_cons]
  by_cases same : name = entry.1
  · simp [same]
  · simp [same, beq_false_of_ne same]

theorem find_insertAll (map : StringMap) (entries : List (Bytes × Bytes))
    (name : Bytes) :
    (map.insertAll entries).find name =
      (map.find name).or (entries.lookup name) := by
  induction entries generalizing map with
  | nil => simp [insertAll]
  | cons entry entries ih =>
      have step : map.insertAll (entry :: entries) =
          (map.insertPair entry.1 entry.2).insertAll entries := rfl
      rw [step, ih, find_insertPair, Option.or_assoc, lookup_cons_eq]
      congr 1
      split <;> rfl

theorem insertAll_concat (map : StringMap) (entries : List (Bytes × Bytes))
    (entry : Bytes × Bytes) :
    map.insertAll (entries ++ [entry]) =
      (map.insertAll entries).insertPair entry.1 entry.2 := by
  simp [insertAll]

theorem mem_toList_iff {map : StringMap} {name value : Bytes} :
    (name, value) ∈ map.toList ↔ map.find name = some value :=
  Std.ExtTreeMap.mem_toList_iff_getElem?_eq_some

/-- The entries of a map are filtered down to one of them exactly when no other
name passes the filter. -/
theorem filter_toList_eq_singleton_iff {map : StringMap}
    {name value : Bytes} (found : map.find name = some value)
    (passes : Bytes × Bytes → Bool) (passed : passes (name, value) = true) :
    map.toList.filter passes = [(name, value)] ↔
      ∀ other text, map.find other = some text →
        passes (other, text) = true → other = name := by
  have member := mem_toList_iff.mpr found
  constructor
  · intro sole other text isEntry alsoPassed
    have inFilter := List.mem_filter.mpr
      ⟨mem_toList_iff.mpr isEntry, alsoPassed⟩
    rw [sole, List.mem_singleton] at inFilter
    exact congrArg Prod.fst inFilter
  · intro sole
    have only : ∀ entry ∈ map.toList.filter passes, entry = (name, value) := by
      rintro ⟨other, text⟩ inFilter
      obtain ⟨isEntry, alsoPassed⟩ := List.mem_filter.mp inFilter
      have isFound := mem_toList_iff.mp isEntry
      obtain rfl := sole other text isFound alsoPassed
      rw [found] at isFound
      cases isFound
      rfl
    have distinct := (Std.ExtTreeMap.distinct_keys_toList (t := map)).filter
      passes
    have kept := List.mem_filter.mpr ⟨member, passed⟩
    generalize map.toList.filter passes = filtered at only distinct kept
    match filtered with
    | [] => cases kept
    | [entry] => rw [only entry List.mem_cons_self]
    | first :: second :: later =>
        have same : first = second :=
          (only first (by simp)).trans (only second (by simp)).symm
        have different := List.rel_of_pairwise_cons distinct
          (List.mem_cons_self (a := second))
        rw [same] at different
        exact (different Std.compare_self).elim

theorem find_empty (name : Bytes) : find ∅ name = none :=
  Std.ExtTreeMap.getElem?_empty

theorem ext_find {left right : StringMap}
    (same : ∀ name, left.find name = right.find name) : left = right :=
  Std.ExtTreeMap.ext_getElem? same

end StringMap

end Woody
