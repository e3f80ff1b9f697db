import Mathlib.Data.List.Basic

/-!
# Filling an array of fixed size

Where arrays have a fixed size, a loop that collects some of its inputs counts them first, allocates
an array of that many slots, and then writes to the slots in order. A write beyond the last slot
fails, and a slot that is never written keeps its default. `collect_eq` says that neither happens
when both loops select the same inputs: the array is the results of the selected inputs, in order.
A loop that copies all its inputs goes by their positions, and a read beyond the last one fails like a
write; `copy_eq` says that the array is the results of all inputs.
-/

namespace FixedArray

variable {ε ι α : Type*}

/-- Writes to a slot, which has to be one of the array's. -/
def write (e : ε) (array : List α) (slot : ℕ) (x : α) : Except ε (List α) :=
  if slot < array.length then .ok (array.set slot x) else .error e

/-- The loop that counts the selected inputs. -/
def count (select : ι → Bool) : List ι → ℕ → ℕ
  | [], n => n
  | i :: is, n => count select is (if select i then n + 1 else n)

/-- The loop that writes the results of the selected inputs to the slots from `slot` on. -/
def fill (e : ε) (select : ι → Bool) (f : ι → α) : List ι → List α → ℕ → Except ε (List α)
  | [], array, _ => .ok array
  | i :: is, array, slot =>
    if select i then
      match write e array slot (f i) with
      | .ok array' => fill e select f is array' (slot + 1)
      | .error e' => .error e'
    else fill e select f is array slot

/-- The first loop counts the selected inputs. -/
theorem count_eq (select : ι → Bool) (is : List ι) (n : ℕ) :
    count select is n = n + (is.filter select).length := by
  induction is generalizing n with
  | nil => rfl
  | cons i is ih =>
    rw [count, ih]
    by_cases h : select i = true
    · rw [if_pos h, List.filter_cons_of_pos h, List.length_cons]
      omega
    · rw [if_neg h, List.filter_cons_of_neg h]

/-- A write to the first slot that is still free. -/
theorem write_next (e : ε) (done : List α) (default x : α) (n : ℕ) :
    write e (done ++ List.replicate (n + 1) default) done.length x =
      .ok ((done ++ [x]) ++ List.replicate n default) := by
  have hslot : done.length < (done ++ List.replicate (n + 1) default).length := by
    rw [List.length_append, List.length_replicate]
    omega
  rw [write, if_pos hslot, List.set_append_right _ _ (Nat.le_refl _), Nat.sub_self,
    List.replicate_succ, List.set_cons_zero, List.append_assoc, List.singleton_append]

/-- The second loop fills as many free slots as there are selected inputs. -/
theorem fill_eq (e : ε) (select : ι → Bool) (f : ι → α) (default : α) (is : List ι) :
    ∀ done : List α,
      fill e select f is (done ++ List.replicate (is.filter select).length default) done.length =
        .ok (done ++ (is.filter select).map f) := by
  induction is with
  | nil => intro done; rfl
  | cons i is ih =>
    intro done
    rw [fill]
    by_cases h : select i = true
    · have hnext := ih (done ++ [f i])
      rw [List.length_append, List.length_singleton] at hnext
      rw [if_pos h, List.filter_cons_of_pos h, List.length_cons, write_next]
      show fill e select f is (done ++ [f i] ++ _) (done.length + 1) = _
      rw [hnext, List.map_cons, List.append_assoc, List.singleton_append]
    · rw [if_neg h, List.filter_cons_of_neg h]
      exact ih done

/-- **Counting and filling**: the array gets the results of the selected inputs, in order, without a
write beyond its end. -/
theorem collect_eq (e : ε) (select : ι → Bool) (f : ι → α) (default : α) (is : List ι) :
    fill e select f is (List.replicate (count select is 0) default) 0 =
      .ok ((is.filter select).map f) := by
  rw [count_eq, Nat.zero_add]
  exact fill_eq e select f default is []

/-- The loop that writes the results of the inputs to their slots, for `n` inputs from position `i`
on. -/
def copy (e : ε) (f : ι → α) (source : List ι) : ℕ → ℕ → List α → Except ε (List α)
  | 0, _, array => .ok array
  | n + 1, i, array =>
    match source[i]? with
    | none => .error e
    | some x =>
      match write e array i (f x) with
      | .ok array' => copy e f source n (i + 1) array'
      | .error e' => .error e'

/-- The loop copies the inputs that remain to the free slots. -/
theorem copy_append (e : ε) (f : ι → α) (default : α) (rest : List ι) :
    ∀ done : List ι,
      copy e f (done ++ rest) rest.length done.length
          (done.map f ++ List.replicate rest.length default) = .ok ((done ++ rest).map f) := by
  induction rest with
  | nil =>
    intro done
    rw [List.append_nil]
    exact congrArg Except.ok (List.append_nil _)
  | cons x rest ih =>
    intro done
    have hread : (done ++ x :: rest)[done.length]? = some x := by
      rw [List.getElem?_append_right (Nat.le_refl _), Nat.sub_self, List.getElem?_cons_zero]
    have hwrite := write_next e (done.map f) default (f x) rest.length
    have hnext := ih (done ++ [x])
    rw [List.length_map] at hwrite
    rw [List.length_append, List.length_singleton, List.append_assoc, List.map_append] at hnext
    rw [List.length_cons, copy, hread]
    simp only [hwrite]
    exact hnext

/-- **Copying**: the array gets the results of all inputs, in order, without a read or a write beyond
the end. -/
theorem copy_eq (e : ε) (f : ι → α) (default : α) (source : List ι) :
    copy e f source source.length 0 (List.replicate source.length default) = .ok (source.map f) :=
  copy_append e f default source []

end FixedArray
