import Mathlib.Tactic

/-!
# Formatted input

The extraction operators of an input stream with its default flags, on what is left of the stream: each
skips blanks, then takes a word, or a number with its optional sign. `none` is a stream that has failed.
A token that is followed by something that stops it is read back whole, whatever comes after.
-/

namespace UxNet.Scan

/-- `isspace` in the C locale. -/
def isSpace (c : Char) : Bool :=
  c = ' ' || c = '\t' || c = '\n' || c = Char.ofNat 11 || c = Char.ofNat 12 || c = '\r'

/-- Extraction of a string. -/
def word (s : List Char) : Option (List Char × List Char) :=
  match s.dropWhile isSpace with
  | [] => none
  | c :: s => some ((c :: s).span fun c => !isSpace c)

/-- The value of a string of digits. -/
def decimal (ds : List Char) : ℕ := ds.foldl (fun n c => 10 * n + (c.toNat - '0'.toNat)) 0

/-- An optional sign: whether it is negative, and what follows. -/
def sign : List Char → Bool × List Char
  | '-' :: s => (true, s)
  | '+' :: s => (false, s)
  | s => (false, s)

/-- Extraction of an unsigned number of `w` bits. A number out of range fails, a negative one wraps
around. -/
def number (w : ℕ) (s : List Char) : Option (BitVec w × List Char) :=
  let signed := sign (s.dropWhile isSpace)
  let digits := signed.2.span Char.isDigit
  if digits.1 = [] ∨ 2 ^ w ≤ decimal digits.1 then none
  else some (if signed.1 then -BitVec.ofNat w (decimal digits.1) else BitVec.ofNat w (decimal digits.1),
    digits.2)

/-! ## Blanks -/

/-- All blanks. -/
def Blank (s : List Char) : Prop := ∀ c ∈ s, isSpace c = true

/-- No blanks. -/
def Solid (s : List Char) : Prop := ∀ c ∈ s, isSpace c = false

/-- All digits. -/
def Digits (s : List Char) : Prop := ∀ c ∈ s, c.isDigit = true

instance (s : List Char) : Decidable (Blank s) := List.decidableBAll (fun c => isSpace c = true) s

instance (s : List Char) : Decidable (Solid s) := List.decidableBAll (fun c => isSpace c = false) s

instance (s : List Char) : Decidable (Digits s) := List.decidableBAll (fun c : Char => c.isDigit = true) s

/-- The end of the stream, or a blank. -/
def Stops (s : List Char) : Prop := ∀ c ∈ s.head?, isSpace c = true

variable {b t s : List Char}

/-- Blanks in front make no difference. -/
lemma word_blank (blank : Blank b) (s : List Char) : word (b ++ s) = word s := by
  rw [word, word, List.dropWhile_append_of_pos blank]

/-- Blanks before a number are skipped. -/
lemma number_blank {w : ℕ} (blank : Blank b) (s : List Char) : number w (b ++ s) = number w s := by
  rw [number, number, List.dropWhile_append_of_pos blank]

/-! ## Tokens -/

/-- What is taken as long as it has a property, up to something that has not. -/
lemma span_append {p : Char → Bool} (all : ∀ c ∈ t, p c = true) (stop : ∀ c ∈ s.head?, p c = false) :
    (t ++ s).span p = (t, s) := by
  have none : s.takeWhile p = [] ∧ s.dropWhile p = s := by
    cases s with
    | nil => exact ⟨rfl, rfl⟩
    | cons c s =>
      have out := stop c rfl
      rw [List.takeWhile_cons_of_neg (by rw [out]; decide), List.dropWhile_cons_of_neg (by rw [out]; decide)]
      exact ⟨rfl, rfl⟩
  rw [List.span_eq_takeWhile_dropWhile, List.takeWhile_append_of_pos all,
    List.dropWhile_append_of_pos all, none.1, none.2, List.append_nil]

/-- A word is read back. -/
lemma word_append (ne : t ≠ []) (solid : Solid t) (stop : Stops s) : word (t ++ s) = some (t, s) := by
  cases t with
  | nil => exact absurd rfl ne
  | cons c t =>
    have first := solid c (by simp)
    rw [word, List.cons_append, List.dropWhile_cons_of_neg (by rw [first]; decide)]
    refine congrArg some (span_append (t := c :: t) ?_ ?_)
    · intro c' mem
      rw [solid c' mem]
      rfl
    · intro c' mem
      rw [stop c' mem]
      rfl

/-- What a span leaves is not longer. -/
lemma length_span (p : Char → Bool) (s : List Char) : (s.span p).2.length ≤ s.length := by
  rw [List.span_eq_takeWhile_dropWhile]
  exact (List.dropWhile_sublist p).length_le

/-- A word takes something. -/
lemma word_length {x : List Char × List Char} (read : word s = some x) : x.2.length < s.length := by
  unfold word at read
  have le := (List.dropWhile_sublist isSpace (l := s)).length_le
  cases e : s.dropWhile isSpace with
  | nil => rw [e] at read; cases read
  | cons c s' =>
    rw [e] at read le
    have first : isSpace c = false := by
      have := List.head_dropWhile_not isSpace (l := s) (by rw [e]; simp)
      simpa [e] using this
    rw [← Option.some.inj read, List.span_eq_takeWhile_dropWhile,
      List.dropWhile_cons_of_pos (by rw [first]; rfl)]
    have := (List.dropWhile_sublist (fun c => !isSpace c) (l := s')).length_le
    rw [List.length_cons] at le
    show (s'.dropWhile _).length < _
    omega

/-- What a sign leaves is not longer. -/
lemma length_sign (s : List Char) : (sign s).2.length ≤ s.length := by
  unfold sign
  split
  · simp
  · simp
  · exact le_rfl

/-- What a number leaves. -/
lemma number_rest {w : ℕ} {x : BitVec w × List Char} (read : number w s = some x) :
    x.2 = ((sign (s.dropWhile isSpace)).2.span Char.isDigit).2 := by
  simp only [number] at read
  split at read
  · cases read
  · rw [← Option.some.inj read]

/-- What a number leaves is not longer. -/
lemma number_length {w : ℕ} {x : BitVec w × List Char} (read : number w s = some x) :
    x.2.length ≤ s.length := by
  rw [number_rest read]
  have skip := (List.dropWhile_sublist isSpace (l := s)).length_le
  have signed := length_sign (s.dropWhile isSpace)
  have digits := length_span Char.isDigit (sign (s.dropWhile isSpace)).2
  omega

/-! ## Numbers -/

/-- A digit is not a blank. -/
lemma isSpace_of_isDigit {c : Char} (digit : c.isDigit = true) : isSpace c = false := by
  by_contra space
  simp only [isSpace, Bool.or_eq_true, decide_eq_true_eq, Bool.not_eq_false] at space
  rcases space with ((((rfl | rfl) | rfl) | rfl) | rfl) | rfl <;> exact absurd digit (by decide)

/-- A digit is not a sign. -/
lemma sign_of_isDigit {c : Char} (digit : c.isDigit = true) (s : List Char) :
    sign (c :: s) = (false, c :: s) := by
  unfold sign
  split
  · rename_i e
    cases e
    exact absurd digit (by decide)
  · rename_i e
    cases e
    exact absurd digit (by decide)
  · rfl

/-- A number is read back. -/
lemma number_append {w : ℕ} (ne : t ≠ []) (digits : Digits t) (fits : decimal t < 2 ^ w)
    (stop : Stops s) : number w (t ++ s) = some (BitVec.ofNat w (decimal t), s) := by
  have all : (t ++ s).span Char.isDigit = (t, s) := by
    refine span_append digits ?_
    intro c mem
    by_contra digit
    have space := stop c mem
    rw [isSpace_of_isDigit (Bool.not_eq_false _ ▸ digit)] at space
    cases space
  have bare : sign ((t ++ s).dropWhile isSpace) = (false, t ++ s) := by
    cases t with
    | nil => exact absurd rfl ne
    | cons c t =>
      have first := digits c (by simp)
      rw [List.cons_append, List.dropWhile_cons_of_neg (by rw [isSpace_of_isDigit first]; decide)]
      exact sign_of_isDigit first (t ++ s)
  have good : ¬(t = [] ∨ 2 ^ w ≤ decimal t) := by
    rintro (none | big)
    · exact ne none
    · omega
  rw [number, bare]
  simp only [all]
  rw [if_neg good]
  rfl

/-- What is left of a token of which a number was read, if it ends in something that is no digit. -/
lemma number_part {w : ℕ} {e : Char} (solid : Solid t) (space : isSpace e = false)
    (digit : e.isDigit = false) (unsigned : e ≠ '-' ∧ e ≠ '+') {x : BitVec w × List Char}
    (read : number w (t ++ e :: s) = some x) : ∃ t', Solid t' ∧ x.2 = t' ++ e :: s := by
  -- blanks, sign and digits each leave part of the token
  have blanks : (t ++ e :: s).dropWhile isSpace = t ++ e :: s := by
    cases t with
    | nil => exact List.dropWhile_cons_of_neg (by rw [space]; decide)
    | cons c t => exact List.dropWhile_cons_of_neg (by rw [solid c (by simp)]; decide)
  have signed : ∃ t', Solid t' ∧ (sign (t ++ e :: s)).2 = t' ++ e :: s := by
    cases t with
    | nil =>
      refine ⟨[], fun c mem => absurd mem (by simp), ?_⟩
      unfold sign
      split
      · rename_i h
        exact absurd (List.cons.inj h).1 unsigned.1
      · rename_i h
        exact absurd (List.cons.inj h).1 unsigned.2
      · rfl
    | cons c t =>
      have rest : Solid t := fun c' mem => solid c' (by simp [mem])
      unfold sign
      split
      · rename_i h
        exact ⟨t, rest, (List.cons.inj h).2.symm⟩
      · rename_i h
        exact ⟨t, rest, (List.cons.inj h).2.symm⟩
      · exact ⟨c :: t, solid, rfl⟩
  obtain ⟨t', solid', signed⟩ := signed
  have digits : ((t' ++ e :: s).span Char.isDigit).2 = t'.dropWhile Char.isDigit ++ e :: s := by
    rw [List.span_eq_takeWhile_dropWhile]
    show (t' ++ e :: s).dropWhile Char.isDigit = _
    rw [List.dropWhile_append, List.dropWhile_cons_of_neg (by rw [digit]; decide)]
    split
    · rename_i none
      rw [List.isEmpty_iff.mp none, List.nil_append]
    · rfl
  refine ⟨t'.dropWhile Char.isDigit, fun c mem => solid' c ((List.dropWhile_sublist _).subset mem), ?_⟩
  rw [number_rest read, blanks, signed, digits]

end UxNet.Scan
