import Mathlib.Tactic

/-!
# Direct-mapped tables

A table of cells in which the place of an entry is a function of its key (`idx`); two keys with one place
cannot both be in it. `lookup` is the map that the cells hold. As long as every entry is in its own place
(`Aligned`), and an entry is never put where one with another key is, writing a cell updates the map and
clearing cells removes keys from it.
-/

namespace UxNet.Table

variable {ι K V : Type*} [DecidableEq K] {idx : K → ι} {cells : ι → Option (K × V)}

/-- What is in the table under a key. -/
def lookup (idx : K → ι) (cells : ι → Option (K × V)) (k : K) : Option V :=
  (cells (idx k)).bind fun e => if e.1 = k then some e.2 else none

/-- Every entry is in its own place. -/
def Aligned (idx : K → ι) (cells : ι → Option (K × V)) : Prop := ∀ i e, cells i = some e → idx e.1 = i

/-- A lookup succeeds exactly if its cell has the key. -/
lemma lookup_eq_some_iff {k : K} {v : V} : lookup idx cells k = some v ↔ cells (idx k) = some (k, v) := by
  rw [lookup, Option.bind_eq_some_iff]
  constructor
  · rintro ⟨⟨k', v'⟩, cell, found⟩
    by_cases same : k' = k
    · subst same
      rw [if_pos rfl] at found
      cases found
      exact cell
    · rw [if_neg same] at found
      cases found
  · intro cell
    exact ⟨(k, v), cell, if_pos rfl⟩

/-- In an aligned table every cell is found. -/
lemma lookup_of_cell {i : ι} {k : K} {v : V} (aligned : Aligned idx cells) (cell : cells i = some (k, v)) :
    lookup idx cells k = some v := by
  rw [lookup_eq_some_iff, aligned i _ cell]
  exact cell

omit [DecidableEq K] in
/-- Setting a key keeps the table aligned. -/
lemma Aligned.set [DecidableEq ι] (aligned : Aligned idx cells) (k : K) (v : V) :
    Aligned idx (Function.update cells (idx k) (some (k, v))) := by
  intro i e cell
  by_cases here : i = idx k
  · subst here
    rw [Function.update_self] at cell
    cases cell
    rfl
  · rw [Function.update_of_ne here] at cell
    exact aligned i e cell

omit [DecidableEq K] in
/-- Dropping cells keeps the table aligned. -/
lemma Aligned.filter (aligned : Aligned idx cells) (p : K × V → Bool) :
    Aligned idx fun i => (cells i).filter p := by
  intro i e cell
  exact aligned i e (Option.filter_eq_some_iff.mp cell).1

/-- Writing a cell that is free, or has the key already, updates the map. -/
lemma lookup_set [DecidableEq ι] {k : K} (alone : ∀ e, cells (idx k) = some e → e.1 = k) (v : V) :
    lookup idx (Function.update cells (idx k) (some (k, v)))
      = Function.update (lookup idx cells) k (some v) := by
  funext k'
  by_cases same : k' = k
  · subst same
    rw [Function.update_self, lookup_eq_some_iff, Function.update_self]
  · rw [Function.update_of_ne same]
    by_cases place : idx k' = idx k
    · -- the key has no entry, neither before nor after
      have before : lookup idx cells k' = none := by
        by_contra ne
        obtain ⟨v', found⟩ := Option.ne_none_iff_exists'.mp ne
        rw [lookup_eq_some_iff, place] at found
        exact same (alone _ found)
      rw [before, lookup, place, Function.update_self]
      exact if_neg (Ne.symm same)
    · rw [lookup, Function.update_of_ne place]
      rfl

/-- Clearing the cells of some keys removes these keys. -/
lemma lookup_filter (p : K → Bool) :
    lookup idx (fun i => (cells i).filter fun e => p e.1)
      = fun k => if p k = true then lookup idx cells k else none := by
  funext k
  apply Option.ext
  intro v
  rw [lookup_eq_some_iff, Option.filter_eq_some_iff]
  split
  · rename_i kept
    rw [lookup_eq_some_iff]
    exact and_iff_left kept
  · rename_i gone
    exact ⟨fun h => absurd h.2 gone, fun h => absurd h (by simp)⟩

end UxNet.Table
