import Mathlib.Data.List.Basic
import Mathlib.Order.Lattice

/-! # Maps ordered by a rank

The entries of a map stand in the order of the ranks of their keys, and two keys of one rank are the
same key to the map: an assignment to a second one changes the value and keeps the first key.
-/
namespace Foundations.OrderedMap
set_option autoImplicit false

section Map
variable {κ ι ν : Type} [LinearOrder ι] (rank : κ → ι)

def assign (key : κ) (value : ν) : List (κ × ν) → List (κ × ν)
  | [] => [(key, value)]
  | (k, v) :: rest =>
    if rank key < rank k then (key, value) :: (k, v) :: rest
    else if rank k < rank key then (k, v) :: assign key value rest
    else (k, value) :: rest

def find (name : κ) (entries : List (κ × ν)) : Option ν :=
  (entries.find? fun p => rank p.1 = rank name).map Prod.snd

/-- Assignments, made one after the other. -/
def assignAll (assigned entries : List (κ × ν)) : List (κ × ν) :=
  assigned.foldl (fun entries p => assign rank p.1 p.2 entries) entries

def lastValue (name : κ) (assigned : List (κ × ν)) : Option ν :=
  (assigned.filter fun p => rank p.1 = rank name).getLast?.map Prod.snd

def Ordered (entries : List (κ × ν)) : Prop :=
  (entries.map fun p => rank p.1).Pairwise (· < ·)

variable {rank}

theorem rank_mem_assign {key : κ} {value : ν} {entries : List (κ × ν)} {p : κ × ν}
    (h : p ∈ assign rank key value entries) :
    rank p.1 = rank key ∨ ∃ q ∈ entries, rank p.1 = rank q.1 := by
  induction entries with
  | nil => exact .inl (List.mem_singleton.mp h ▸ rfl)
  | cons q rest ih =>
    obtain ⟨k, v⟩ := q
    rw [assign] at h
    split at h
    · rcases List.mem_cons.mp h with rfl | h
      · exact .inl rfl
      · exact .inr ⟨p, h, rfl⟩
    · split at h
      · rcases List.mem_cons.mp h with rfl | h
        · exact .inr ⟨_, List.mem_cons_self, rfl⟩
        · obtain hkey | ⟨q, hq, hrank⟩ := ih h
          · exact .inl hkey
          · exact .inr ⟨q, List.mem_cons_of_mem _ hq, hrank⟩
      · rcases List.mem_cons.mp h with rfl | h
        · exact .inr ⟨_, List.mem_cons_self, rfl⟩
        · exact .inr ⟨p, List.mem_cons_of_mem _ h, rfl⟩

theorem Ordered.assign {key : κ} (value : ν) {entries : List (κ × ν)}
    (h : Ordered rank entries) : Ordered rank (assign rank key value entries) := by
  induction entries with
  | nil => exact List.pairwise_singleton _ _
  | cons q rest ih =>
    obtain ⟨k, v⟩ := q
    obtain ⟨hfirst, hrest⟩ := List.pairwise_cons.mp h
    rw [OrderedMap.assign]
    split
    · next hlt =>
      refine List.pairwise_cons.mpr ⟨fun i hi => ?_, h⟩
      rcases List.mem_cons.mp hi with rfl | hi
      · exact hlt
      · exact lt_trans hlt (hfirst i hi)
    · split
      · next hgt =>
        refine List.pairwise_cons.mpr ⟨fun i hi => ?_, ih hrest⟩
        obtain ⟨p, hp, rfl⟩ := List.mem_map.mp hi
        obtain hkey | ⟨q, hq, hrank⟩ := rank_mem_assign hp
        · exact hkey ▸ hgt
        · exact hrank ▸ hfirst _ (List.mem_map_of_mem hq)
      · exact List.pairwise_cons.mpr ⟨hfirst, hrest⟩

theorem find_assign (name key : κ) (value : ν) (entries : List (κ × ν)) :
    find rank name (assign rank key value entries) =
      if rank key = rank name then some value else find rank name entries := by
  induction entries with
  | nil => by_cases h : rank key = rank name <;> simp [assign, find, h]
  | cons q rest ih =>
    obtain ⟨k, v⟩ := q
    rw [assign]
    split
    · by_cases h : rank key = rank name <;> simp [find, h]
    · split
      · next hgt =>
        by_cases hk : rank k = rank name
        · have hother : rank key ≠ rank name := hk ▸ ne_of_gt hgt
          simp [find, hk, hother]
        · have hskip : ∀ tail : List (κ × ν),
              find rank name ((k, v) :: tail) = find rank name tail := by
            intro tail
            simp [find, hk]
          rw [hskip, hskip, ih]
      · next hle hge =>
        have hsame : rank k = rank key := le_antisymm (not_lt.mp hle) (not_lt.mp hge)
        by_cases h : rank key = rank name <;> simp [find, hsame, h]

theorem lastValue_cons (name : κ) (p : κ × ν) (assigned : List (κ × ν)) :
    lastValue rank name (p :: assigned) =
      (lastValue rank name assigned).or (if rank p.1 = rank name then some p.2 else none) := by
  by_cases h : rank p.1 = rank name
  · rw [if_pos h, lastValue, lastValue, List.filter_cons_of_pos (by simpa using h),
      List.getLast?_cons]
    cases (assigned.filter fun p => rank p.1 = rank name).getLast? <;> rfl
  · rw [if_neg h, lastValue, lastValue, List.filter_cons_of_neg (by simpa using h), Option.or_none]

/-- Of several assignments to one key the last one stays. -/
theorem find_assignAll (name : κ) (assigned entries : List (κ × ν)) :
    find rank name (assignAll rank assigned entries) =
      (lastValue rank name assigned).or (find rank name entries) := by
  induction assigned generalizing entries with
  | nil => rfl
  | cons p assigned ih =>
    rw [assignAll, List.foldl_cons, ← assignAll, ih, find_assign, lastValue_cons, Option.or_assoc]
    split <;> rfl

end Map

end Foundations.OrderedMap
