import Mathlib.Tactic

/-!
# Circular arrays

A queue in a circular array: everything ever put in is numbered from 0 on, item `i` lies in cell `cell
i`, and the cells come round after `n` items. `Holds` says that the items from `h` on are still in their
cells, which can only be so for `n` of them. An item is written before it counts (`write`, then `push`),
and what has been taken out leaves its cell to the next turn (`pop`).
-/

namespace UxNet.Ring

variable {α ι : Type*} {cell : ℕ → ι} {n h : ℕ} {cells : ι → α} {items : List α}

/-- An element of a list with one more at its end. -/
lemma getElem?_concat_cases {l : List α} {x y : α} {j : ℕ} (get : (l ++ [x])[j]? = some y) :
    (j < l.length ∧ l[j]? = some y) ∨ (j = l.length ∧ y = x) := by
  rcases Nat.lt_trichotomy j l.length with lt | rfl | gt
  · rw [List.getElem?_append_left lt] at get
    exact .inl ⟨lt, get⟩
  · rw [List.getElem?_concat_length] at get
    exact .inr ⟨rfl, (Option.some.inj get).symm⟩
  · rw [List.getElem?_eq_none (by simpa using gt)] at get
    cases get

/-- An element of a list stays where it is when the list grows. -/
lemma getElem?_append_of_some {l m : List α} {x : α} {j : ℕ} (get : l[j]? = some x) :
    (l ++ m)[j]? = some x := by
  rw [List.getElem?_append_left (List.getElem?_eq_some_iff.mp get).1]
  exact get

/-- Indices less than a turn apart have different cells. -/
def Turn (cell : ℕ → ι) (n : ℕ) : Prop := ∀ i j, i < j → j < i + n → cell i ≠ cell j

/-- The items from `h` on lie in their cells. -/
structure Holds (cell : ℕ → ι) (n : ℕ) (cells : ι → α) (items : List α) (h : ℕ) : Prop where
  low : h ≤ items.length
  high : items.length ≤ h + n
  live : ∀ i x, h ≤ i → items[i]? = some x → cells (cell i) = x

/-- A numbering that goes round once in `n` is a turn. -/
lemma Turn.of_mod {cell : ℕ → ι} (mod : ∀ i j, cell i = cell j → i % n = j % n) : Turn cell n := by
  intro i j lt near e
  have eq := mod i j e
  rw [← Nat.ModEq] at eq
  have dvd := (Nat.modEq_iff_dvd' (le_of_lt lt)).mp eq
  have := Nat.le_of_dvd (by omega) dvd
  omega

namespace Holds

/-- An empty ring holds nothing. -/
lemma nil (cell : ℕ → ι) (n : ℕ) (cells : ι → α) : Holds cell n cells [] 0 where
  low := le_refl 0
  high := Nat.zero_le _
  live := by
    intro i x _ get
    cases get

/-- An item that is not taken lies in its cell. -/
lemma getElem? (hold : Holds cell n cells items h) {i : ℕ} (le : h ≤ i) (lt : i < items.length) :
    items[i]? = some (cells (cell i)) := by
  have get := List.getElem?_eq_getElem lt
  rw [get, hold.live i _ le get]

/-- The next item is written to its cell. -/
lemma write [DecidableEq ι] (hold : Holds cell n cells items h) (turn : Turn cell n)
    (room : items.length < h + n) (x : α) :
    Holds cell n (Function.update cells (cell items.length) x) items h := by
  refine ⟨hold.low, hold.high, ?_⟩
  intro i y le get
  have lt := (List.getElem?_eq_some_iff.mp get).1
  rw [Function.update_of_ne (turn i _ lt (by omega))]
  exact hold.live i y le get

/-- The next item counts. -/
lemma push (hold : Holds cell n cells items h) (room : items.length < h + n) {x : α}
    (written : cells (cell items.length) = x) : Holds cell n cells (items ++ [x]) h := by
  refine ⟨?_, ?_, ?_⟩
  · rw [List.length_append]
    exact Nat.le_add_right_of_le hold.low
  · rw [List.length_append, List.length_singleton]
    omega
  · intro i y le get
    rcases getElem?_concat_cases get with ⟨_, get⟩ | ⟨rfl, rfl⟩
    · exact hold.live i y le get
    · exact written

/-- The first item is taken out; its cell is free from now on. -/
lemma pop (hold : Holds cell n cells items h) (turn : Turn cell n) (some : h < items.length)
    {cells' : ι → α} (same : ∀ k, k ≠ cell h → cells' k = cells k) :
    Holds cell n cells' items (h + 1) := by
  refine ⟨some, ?_, ?_⟩
  · have := hold.high
    omega
  · intro i x le get
    have lt := (List.getElem?_eq_some_iff.mp get).1
    have high := hold.high
    rw [same _ (turn h i (by omega) (by omega)).symm]
    exact hold.live i x (by omega) get

end Holds

end UxNet.Ring
