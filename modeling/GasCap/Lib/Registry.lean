import Mathlib.Data.List.Basic
import Mathlib.Data.List.Nodup
import Mathlib.Logic.Function.Basic

/-!
# An append-only register with an index

A register is a list of entries to which entries are only added at the end, with an index that keeps
for each key the positions of its entries. The index is extended next to the entries, not computed
from them, and `Registry` carries the proof that it is nevertheless that of the entries. So the index
of a key has exactly the positions of its entries (`Registry.mem_index`), in order and without
repetition (`Registry.index_sorted`), and every position is in the index of one key
(`Registry.existsUnique_index`).
-/

/-- A list of entries, the positions of the entries of each key, and the proof that they are. -/
structure Registry (Entry Key : Type*) [DecidableEq Key] (key : Entry → Key) where
  entries : List Entry
  index : Key → List ℕ
  index_eq : ∀ k, index k =
    (List.range entries.length).filter fun i => (entries[i]?.map key) = some k

namespace Registry

variable {Entry Key : Type*} [DecidableEq Key] {key : Entry → Key}

/-- The register without entries. -/
def empty : Registry Entry Key key where
  entries := []
  index _ := []
  index_eq _ := rfl

/-- Adding an entry leaves the entries at the positions before it. -/
theorem filter_append (entries : List Entry) (e : Entry) (k : Key) :
    ((List.range (entries ++ [e]).length).filter
        fun i => ((entries ++ [e])[i]?.map key) = some k) =
      ((List.range entries.length).filter fun i => (entries[i]?.map key) = some k) ++
        if key e = k then [entries.length] else [] := by
  have hbefore : (List.range entries.length).filter
        (fun i => decide (((entries ++ [e])[i]?.map key) = some k)) =
      (List.range entries.length).filter fun i => (entries[i]?.map key) = some k := by
    apply List.filter_congr
    intro i hi
    rw [List.getElem?_append_left (List.mem_range.mp hi)]
  rw [List.length_append, List.length_singleton, List.range_succ, List.filter_append, hbefore]
  by_cases h : key e = k <;> simp [h]

/-- Adds an entry, and its position to the index of its key. -/
def add (r : Registry Entry Key key) (e : Entry) : Registry Entry Key key where
  entries := r.entries ++ [e]
  index := Function.update r.index (key e) (r.index (key e) ++ [r.entries.length])
  index_eq k := by
    rw [filter_append]
    rcases eq_or_ne k (key e) with rfl | hne
    · rw [Function.update_self, if_pos rfl, r.index_eq]
    · rw [Function.update_of_ne hne, if_neg hne.symm, List.append_nil, r.index_eq]

/-- The index of a key has exactly the positions of its entries. -/
theorem mem_index (r : Registry Entry Key key) {k : Key} {i : ℕ} :
    i ∈ r.index k ↔ ∃ e, r.entries[i]? = some e ∧ key e = k := by
  rw [r.index_eq, List.mem_filter, List.mem_range, decide_eq_true_iff, Option.map_eq_some_iff]
  refine and_iff_right_of_imp ?_
  rintro ⟨e, he, -⟩
  exact (List.getElem?_eq_some_iff.mp he).1

/-- The index of a key is strictly increasing. -/
theorem index_sorted (r : Registry Entry Key key) (k : Key) : (r.index k).Pairwise (· < ·) := by
  rw [r.index_eq]
  exact List.pairwise_lt_range.filter _

/-- Every position is in the index of one key. -/
theorem existsUnique_index (r : Registry Entry Key key) {i : ℕ} (h : i < r.entries.length) :
    ∃! k, i ∈ r.index k := by
  have hentry : r.entries[i]? = some r.entries[i] := List.getElem?_eq_getElem h
  refine ⟨key r.entries[i], r.mem_index.mpr ⟨_, hentry, rfl⟩, fun k hk => ?_⟩
  obtain ⟨e, he, hkey⟩ := r.mem_index.mp hk
  rw [hentry] at he
  cases he
  exact hkey.symm

end Registry
