import Mathlib.Tactic

/-!
# Linked lists in a table

A singly linked list kept as a table `next` of successors, ended by a distinguished element `nil`.
`Linked next nil i l` says that following the links from `i` visits exactly the elements of `l`, in
order, and then `nil`.
-/

namespace UxNet

variable {α : Type*}

/-- The links followed from `i` are `l`. -/
def Linked (next : α → α) (nil : α) : α → List α → Prop
  | i, [] => i = nil
  | i, j :: l => i = j ∧ j ≠ nil ∧ Linked next nil (next j) l

namespace Linked

variable {next next' : α → α} {nil i : α} {l : List α}

/-- Only the links of the elements of a list matter. -/
lemma congr (h : Linked next nil i l) (same : ∀ j ∈ l, next' j = next j) : Linked next' nil i l := by
  induction l generalizing i with
  | nil => exact h
  | cons j l ih =>
    obtain ⟨rfl, ne, rest⟩ := h
    refine ⟨rfl, ne, ?_⟩
    rw [same i List.mem_cons_self]
    exact ih rest fun k mem => same k (List.mem_cons_of_mem i mem)

/-- The link of an element outside a list may change. -/
lemma update [DecidableEq α] (h : Linked next nil i l) {j : α} (notin : j ∉ l) (k : α) :
    Linked (Function.update next j k) nil i l := by
  apply h.congr
  intro x mem
  apply Function.update_of_ne
  rintro rfl
  exact notin mem

/-- A list that does not start at the end starts with its first element. -/
lemma cons_of_ne (h : Linked next nil i l) (ne : i ≠ nil) :
    ∃ l', l = i :: l' ∧ Linked next nil (next i) l' := by
  cases l with
  | nil => exact absurd h ne
  | cons j l =>
    obtain ⟨rfl, _, rest⟩ := h
    exact ⟨l, rfl, rest⟩

/-- A list that starts at the end is empty. -/
lemma eq_nil (h : Linked next nil nil l) : l = [] := by
  cases l with
  | nil => rfl
  | cons j l =>
    obtain ⟨rfl, ne, _⟩ := h
    exact absurd rfl ne

/-- The links from a place give one list only. -/
lemma unique {l' : List α} (h : Linked next nil i l) (h' : Linked next nil i l') : l = l' := by
  induction l generalizing i l' with
  | nil =>
    rw [show i = nil from h] at h'
    exact h'.eq_nil.symm
  | cons j l ih =>
    obtain ⟨rfl, ne, rest⟩ := h
    obtain ⟨l'', rfl, rest'⟩ := h'.cons_of_ne ne
    rw [ih rest rest']

end Linked

end UxNet
