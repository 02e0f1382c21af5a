import UxNet.Lib.Scan

/-!
# Numbers and lines in a text

`strtol` with base 10 and `strtoull` with base 16 on a string, and `getline` until the end of a text. As
with the extraction operators, what is written is read back if something that is no digit follows.
-/

namespace UxNet.Scan

/-- `isxdigit`. -/
def isHex (c : Char) : Bool := c.isDigit || ('a' ≤ c && c ≤ 'f') || ('A' ≤ c && c ≤ 'F')

/-- The value of a hexadecimal digit. -/
def hexVal (c : Char) : ℕ :=
  if c.isDigit then c.toNat - '0'.toNat
  else if 'a' ≤ c then c.toNat - 'a'.toNat + 10
  else c.toNat - 'A'.toNat + 10

/-- The value of a string of hexadecimal digits. -/
def hexadecimal (ds : List Char) : ℕ := ds.foldl (fun n c => 16 * n + hexVal c) 0

/-- `0x` in front of a hexadecimal digit is skipped. -/
def skip0x : List Char → List Char
  | '0' :: x :: c :: s => if (x = 'x' || x = 'X') && isHex c then c :: s else '0' :: x :: c :: s
  | s => s

/-- `strtoull` with base 16; a number out of range gives the largest one. -/
def strtoull16 (s : List Char) : BitVec 64 :=
  let signed := sign (s.dropWhile isSpace)
  let value := hexadecimal ((skip0x signed.2).takeWhile isHex)
  if 2 ^ 64 ≤ value then BitVec.ofNat 64 (2 ^ 64 - 1)
  else if signed.1 then -BitVec.ofNat 64 value
  else BitVec.ofNat 64 value

/-- `strtol` with base 10, and what is left of the string; a number out of range is cut off. -/
def strtol (s : List Char) : ℤ × List Char :=
  let signed := sign (s.dropWhile isSpace)
  let digits := signed.2.span Char.isDigit
  if digits.1 = [] then (0, s)
  else if signed.1 then (max (-(decimal digits.1 : ℤ)) (-2 ^ 63), digits.2)
  else (min (decimal digits.1 : ℤ) (2 ^ 63 - 1), digits.2)

/-- `getline` until the end of a text, with some of the current line read. -/
def linesFrom : List Char → List Char → List (List Char)
  | line, [] => if line = [] then [] else [line]
  | line, c :: s => if c = '\n' then line :: linesFrom [] s else linesFrom (line ++ [c]) s

/-- The lines of a text. -/
def lines (s : List Char) : List (List Char) := linesFrom [] s

variable {t s : List Char}

/-- A hex digit is not a blank. -/
lemma isSpace_of_isHex {c : Char} (hex : isHex c = true) : isSpace c = false := by
  by_contra space
  simp only [isSpace, Bool.or_eq_true, decide_eq_true_eq, Bool.not_eq_false] at space
  rcases space with ((((rfl | rfl) | rfl) | rfl) | rfl) | rfl
  all_goals exact absurd hex (by decide)

/-- A hex digit is not a sign. -/
lemma sign_of_isHex {c : Char} (hex : isHex c = true) (s : List Char) :
    sign (c :: s) = (false, c :: s) := by
  unfold sign
  split
  · rename_i e
    cases e
    exact absurd hex (by decide)
  · rename_i e
    cases e
    exact absurd hex (by decide)
  · rfl

/-- Digits are not mistaken for `0x`. -/
lemma skip0x_append (hex : ∀ c ∈ t, isHex c = true) (s : List Char) : skip0x (t ++ ' ' :: s) = t ++ ' ' :: s := by
  have second : ∀ x, isHex x = true → (x = 'x' || x = 'X') = false := by
    intro x is
    by_contra marks
    simp only [Bool.or_eq_true, decide_eq_true_eq, Bool.not_eq_false] at marks
    rcases marks with rfl | rfl
    all_goals exact absurd is (by decide)
  unfold skip0x
  split
  · rename_i x c rest e
    split
    · rename_i test
      exfalso
      rw [Bool.and_eq_true] at test
      match t, e with
      | [], e => exact absurd (List.cons.inj e).1 (by decide)
      | [_], e =>
        obtain rfl : ' ' = x := (List.cons.inj (List.cons.inj e).2).1
        exact absurd test.1 (by decide)
      | _ :: y :: t, e =>
        obtain rfl : y = x := (List.cons.inj (List.cons.inj e).2).1
        rw [second y (hex y (by simp))] at test
        exact absurd test.1 (by decide)
    · exact e.symm
  · rfl

/-- A hexadecimal number that a blank follows is read back. -/
lemma strtoull16_append (ne : t ≠ []) (hex : ∀ c ∈ t, isHex c = true) (fits : hexadecimal t < 2 ^ 64)
    (s : List Char) : strtoull16 (t ++ ' ' :: s) = BitVec.ofNat 64 (hexadecimal t) := by
  have bare : sign ((t ++ ' ' :: s).dropWhile isSpace) = (false, t ++ ' ' :: s) := by
    cases t with
    | nil => exact absurd rfl ne
    | cons c t =>
      have first := hex c (by simp)
      rw [List.cons_append, List.dropWhile_cons_of_neg (by rw [isSpace_of_isHex first]; decide)]
      exact sign_of_isHex first _
  have digits : (t ++ ' ' :: s).takeWhile isHex = t := by
    rw [List.takeWhile_append_of_pos hex, List.takeWhile_cons_of_neg (by decide), List.append_nil]
  rw [strtoull16, bare]
  simp only [skip0x_append hex, digits]
  rw [if_neg (by omega)]
  rfl

/-- A number without blanks or sign begins with its digits. -/
lemma sign_digits {c : Char} (digit : c.isDigit = true) (s : List Char) :
    sign ((c :: s).dropWhile isSpace) = (false, c :: s) := by
  rw [List.dropWhile_cons_of_neg (by rw [isSpace_of_isDigit digit]; decide)]
  exact sign_of_isDigit digit s

/-- A decimal number that something else follows is read back. -/
lemma strtol_append (ne : t ≠ []) (digits : Digits t) (fits : decimal t < 2 ^ 63)
    (stop : ∀ c ∈ s.head?, c.isDigit = false) : strtol (t ++ s) = ((decimal t : ℤ), s) := by
  have all : (t ++ s).span Char.isDigit = (t, s) := span_append digits stop
  have bare : sign ((t ++ s).dropWhile isSpace) = (false, t ++ s) := by
    cases t with
    | nil => exact absurd rfl ne
    | cons c t => exact sign_digits (digits c (by simp)) (t ++ s)
  rw [strtol, bare]
  simp only [all]
  rw [if_neg ne, if_neg (by decide), min_eq_left (by omega)]

/-- Whatever the number is, what is left comes after its digits. -/
lemma strtol_rest {c : Char} (digit : c.isDigit = true) (s : List Char) :
    (strtol (c :: s)).2 = (c :: s).dropWhile Char.isDigit := by
  rw [strtol, sign_digits digit]
  simp [List.span_eq_takeWhile_dropWhile, digit]

/-- A line ends at its newline. -/
lemma linesFrom_append (line l s : List Char) (plain : '\n' ∉ l) :
    linesFrom line (l ++ '\n' :: s) = (line ++ l) :: linesFrom [] s := by
  induction l generalizing line with
  | nil => rw [List.nil_append, linesFrom, if_pos rfl, List.append_nil]
  | cons c l ih =>
    have other := List.ne_of_not_mem_cons plain
    have plain := List.not_mem_of_not_mem_cons plain
    rw [List.cons_append, linesFrom, if_neg (Ne.symm other), ih _ plain, List.append_assoc]
    rfl

/-- Lines are read back. -/
lemma lines_flatMap (ls : List (List Char)) (plain : ∀ l ∈ ls, '\n' ∉ l) :
    lines (ls.flatMap fun l => l ++ ['\n']) = ls := by
  induction ls with
  | nil => rfl
  | cons l ls ih =>
    have rest := ih fun l' mem => plain l' (List.mem_cons_of_mem _ mem)
    rw [List.flatMap_cons, List.append_assoc, lines, List.singleton_append,
      linesFrom_append _ _ _ (plain l (List.mem_cons_self ..)), List.nil_append]
    exact congrArg (l :: ·) rest

end UxNet.Scan
