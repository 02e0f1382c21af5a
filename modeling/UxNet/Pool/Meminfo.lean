import UxNet.Lib.Loop
import UxNet.Lib.Scan

/-!
# The lookup in meminfo

`read_meminfo_field` of `huge_alloc.cpp`, on the text of the file. Its loop takes three words at a time,
a name, a number and a unit, wherever the lines end. On a file of lines with and without a unit `lookup`
says what comes of it: a line without a unit has its name and number read, but with it the name of the
next line, and from there on the words taken for names are the numbers of the lines.
-/

namespace UxNet.Pool

open Scan

/-- `meminfo >> name >> value >> unit`: the name, the value, and what is left. -/
def meminfoEntry (s : List Char) : Option (List Char × BitVec 64 × List Char) := do
  let (name, s) ← word s
  let (value, s) ← number 64 s
  let (_, s) ← word s
  pure (name, value, s)

/-- One round of the loop of `read_meminfo_field`, on what is left of the file and the value to return. -/
def meminfoRound (key : List Char) (s : List Char × BitVec 64) : ForInStep (List Char × BitVec 64) :=
  match meminfoEntry s.1 with
  | none => .done ([], 0)
  | some (name, value, rest) => if name = key then .done (rest, value) else .yield (rest, 0)

/-- `read_meminfo_field`, of a file with the given text. -/
def readMeminfoField (key text : List Char) : BitVec 64 :=
  (Loop.loop (meminfoRound key) (text.length + 1) (text, 0)).2

/-- `HugePageAllocator::available_huge_pages`. -/
def availableHugePages (text : List Char) : BitVec 64 := readMeminfoField "HugePages_Free:".toList text

/-- `HugePageAllocator::total_huge_pages`. -/
def totalHugePages (text : List Char) : BitVec 64 := readMeminfoField "HugePages_Total:".toList text

/-! ## The loop -/

section Rounds

variable {key s rest : List Char} {value : BitVec 64}

/-- The loop returns `value` when `s` is left of the file. -/
def Returns (key s : List Char) (value : BitVec 64) : Prop :=
  ∃ rest, Loop.Runs (meminfoRound key) (s, 0) (rest, value)

/-- What an entry leaves is shorter. -/
lemma meminfoEntry_length {name : List Char} (read : meminfoEntry s = some (name, value, rest)) :
    rest.length < s.length := by
  simp only [meminfoEntry, Option.bind_eq_bind, Option.bind_eq_some_iff, Option.pure_def,
    Option.some.injEq] at read
  obtain ⟨⟨name', s₁⟩, read₁, ⟨value', s₂⟩, read₂, ⟨unit, s₃⟩, read₃, e⟩ := read
  cases e
  have lt₁ := word_length read₁
  have le₂ := number_length read₂
  have lt₃ := word_length read₃
  simp only at lt₁ le₂ lt₃
  show s₃.length < s.length
  omega

/-- The loop ends, and what it returns is the value of `read_meminfo_field`. -/
lemma Returns.eq (returns : Returns key s value) : readMeminfoField key s = value := by
  obtain ⟨rest, run⟩ := returns
  have shrinks : ∀ a b, meminfoRound key a = .yield b → b.1.length < a.1.length := by
    intro a b e
    unfold meminfoRound at e
    split at e
    · cases e
    · rename_i read
      split at e
      · cases e
      · cases e
        exact meminfoEntry_length read
  have run' := Loop.loop_runs (fun a => a.1.length) shrinks (n := s.length + 1) (s := (s, 0)) (by simp)
  rw [readMeminfoField, run'.unique run]

/-- Without an entry the answer is 0. -/
lemma Returns.fail (read : meminfoEntry s = none) : Returns key s 0 :=
  ⟨[], .done (by rw [meminfoRound, read])⟩

/-- The entry with the key gives its value. -/
lemma Returns.found (read : meminfoEntry s = some (key, value, rest)) : Returns key s value :=
  ⟨rest, .done (by rw [meminfoRound, read]; exact if_pos rfl)⟩

/-- Any other entry is passed over. -/
lemma Returns.next {name : List Char} {value' : BitVec 64}
    (read : meminfoEntry s = some (name, value', rest)) (other : name ≠ key)
    (returns : Returns key rest value) : Returns key s value := by
  obtain ⟨rest', run⟩ := returns
  exact ⟨rest', .yield (by rw [meminfoRound, read]; exact if_neg other) run⟩

/-- Blanks in front make no difference. -/
lemma Returns.blank (b : List Char) (blank : Blank b) (returns : Returns key s value) :
    Returns key (b ++ s) value := by
  have same : meminfoRound key (b ++ s, 0) = meminfoRound key (s, 0) := by
    rw [meminfoRound, meminfoRound, meminfoEntry, meminfoEntry, word_blank blank]
  obtain ⟨rest', run⟩ := returns
  cases run with
  | done e => exact ⟨rest', .done (same.trans e)⟩
  | yield e run => exact ⟨rest', .yield (same.trans e) run⟩

end Rounds

/-! ## The file -/

/-- A line of the file, `gap + 1` blanks between its name and its value. -/
structure Line where
  name : List Char
  gap : ℕ
  digits : List Char
  unit : Bool
  name_solid : Solid name
  digits_ne : digits ≠ []
  isDigit : Digits digits
  fits : decimal digits < 2 ^ 64

namespace Line

/-- The value. -/
def value (l : Line) : ℕ := decimal l.digits

/-- The name as the file has it. -/
def key (l : Line) : List Char := l.name ++ [':']

/-- What is behind the value. -/
def ending (l : Line) : List Char := if l.unit then [' ', 'k', 'B', '\n'] else ['\n']

/-- What is behind the name. -/
def tail (l : Line) : List Char := List.replicate (l.gap + 1) ' ' ++ (l.digits ++ l.ending)

/-- The line. -/
def text (l : Line) : List Char := l.key ++ l.tail

/-- A key has no blanks. -/
lemma key_solid (l : Line) : Solid l.key := by
  intro c mem
  rcases List.mem_append.mp mem with mem | mem
  · exact l.name_solid c mem
  · rw [List.mem_singleton.mp mem]
    rfl

/-- Digits have no blanks. -/
lemma digits_solid (l : Line) : Solid l.digits := fun c mem => isSpace_of_isDigit (l.isDigit c mem)

/-- Spaces are blank. -/
lemma gap_blank (l : Line) : Blank (List.replicate (l.gap + 1) ' ') := by
  intro c mem
  rw [List.eq_of_mem_replicate mem]
  rfl

/-- A number ends at its unit or at the end of the line. -/
lemma ending_stops (l : Line) (s : List Char) : Stops (l.ending ++ s) := by
  unfold ending
  cases l.unit with
  | true => simp [Stops, isSpace]
  | false => simp [Stops, isSpace]

/-- A name ends at the gap behind it. -/
lemma tail_stops (l : Line) (s : List Char) : Stops (l.tail ++ s) := by
  simp [Stops, tail, List.replicate_succ, isSpace]

/-- The name of a line is read. -/
lemma word_text (l : Line) (s : List Char) : word (l.text ++ s) = some (l.key, l.tail ++ s) := by
  rw [text, List.append_assoc]
  exact word_append (by simp [key]) l.key_solid (l.tail_stops s)

/-- Its value is read as a number. -/
lemma number_tail (l : Line) (s : List Char) :
    number 64 (l.tail ++ s) = some (BitVec.ofNat 64 l.value, l.ending ++ s) := by
  rw [tail, List.append_assoc, List.append_assoc, number_blank l.gap_blank]
  exact number_append l.digits_ne l.isDigit l.fits (l.ending_stops s)

/-- Its value is read as a word. -/
lemma word_tail (l : Line) (s : List Char) : word (l.tail ++ s) = some (l.digits, l.ending ++ s) := by
  rw [tail, List.append_assoc, List.append_assoc, word_blank l.gap_blank]
  exact word_append l.digits_ne l.digits_solid (l.ending_stops s)

/-- A value is no name. -/
lemma digits_ne_key (l l' : Line) : l.digits ≠ l'.key := by
  intro e
  have colon : ':' ∈ l.digits := by
    rw [e]
    simp [key]
  exact absurd (l.isDigit ':' colon) (by decide)

/-- What is read of a line and of what follows it. -/
lemma entry_text (l : Line) (s : List Char) : meminfoEntry (l.text ++ s)
    = (word (l.ending ++ s)).map fun x => (l.key, BitVec.ofNat 64 l.value, x.2) := by
  rw [meminfoEntry, l.word_text]
  show (number 64 (l.tail ++ s) >>= _) = _
  rw [l.number_tail]
  show (word (l.ending ++ s) >>= _) = _
  cases word (l.ending ++ s) with
  | none => rfl
  | some x => rfl

/-- What is read from the value of a line on. -/
lemma entry_tail (l : Line) (s : List Char) : meminfoEntry (l.tail ++ s)
    = (number 64 (l.ending ++ s)).bind fun x => (word x.2).map fun y => (l.digits, x.1, y.2) := by
  rw [meminfoEntry, l.word_tail]
  show (number 64 (l.ending ++ s) >>= _) = _
  cases number 64 (l.ending ++ s) with
  | none => rfl
  | some x =>
    show (word x.2 >>= _) = (word x.2).map _
    cases word x.2 with
    | none => rfl
    | some y => rfl

end Line

/-- The text of the file. -/
def fileText (lines : List Line) : List Char := lines.flatMap Line.text

/-- What `read_meminfo_field` makes of a file. -/
def lookup (name : List Char) : List Line → ℕ
  | [] => 0
  | [l] => if l.unit ∧ l.name = name then l.value else 0
  | l :: l' :: lines =>
    if l.name = name then l.value else if l.unit then lookup name (l' :: lines) else 0

/-- A newline is blank. -/
lemma newline_blank : Blank ['\n'] := by decide

/-- The name of a line may begin with a number; the rest of it is then read as a unit. -/
lemma number_text {l : Line} {s : List Char} {x : BitVec 64 × List Char}
    (read : number 64 (l.text ++ s) = some x) : ∃ t, word x.2 = some (t, l.tail ++ s) := by
  rw [Line.text, Line.key, List.append_assoc, List.append_assoc, List.singleton_append] at read
  obtain ⟨t, solid, left⟩ := number_part l.name_solid rfl rfl (by decide) read
  refine ⟨t ++ [':'], ?_⟩
  rw [left, ← List.singleton_append, ← List.append_assoc]
  refine word_append (by simp) ?_ (l.tail_stops s)
  intro c mem
  rcases List.mem_append.mp mem with mem | mem
  · exact solid c mem
  · rw [List.mem_singleton.mp mem]
    rfl

/-- Once a unit is missing, the words taken for names are values. -/
lemma returns_shifted (k l : Line) (lines : List Line) : Returns k.key (l.tail ++ fileText lines) 0 := by
  induction lines generalizing l with
  | nil =>
    apply Returns.fail
    rw [l.entry_tail, Line.ending]
    cases l.unit with
    | true => rfl
    | false => rfl
  | cons l' lines ih =>
    cases bare : l.unit with
    | true =>
      apply Returns.fail
      rw [l.entry_tail, Line.ending, bare]
      rfl
    | false =>
      have read : meminfoEntry (l.tail ++ fileText (l' :: lines))
          = (number 64 (l'.text ++ fileText lines)).bind fun x => (word x.2).map
            fun y => (l.digits, x.1, y.2) := by
        rw [l.entry_tail, Line.ending, bare, if_neg (by decide), number_blank newline_blank]
        rfl
      cases e : number 64 (l'.text ++ fileText lines) with
      | none => exact .fail (by rw [read, e]; rfl)
      | some x =>
        -- the next name began with a number: its rest is the unit, and its value the next name
        obtain ⟨t, unit⟩ := number_text e
        rw [e, Option.bind_some, unit] at read
        exact .next read (l.digits_ne_key k) (ih l')

/-- A line with its unit is looked at by itself. -/
lemma lookup_cons {l : Line} (unit : l.unit = true) (name : List Char) (lines : List Line) :
    lookup name (l :: lines) = if l.name = name then l.value else lookup name lines := by
  cases lines with
  | nil => simp [lookup, unit]
  | cons l' lines => rw [lookup, if_pos unit]

/-- `read_meminfo_field` computes `lookup`. -/
lemma returns_lookup (k : Line) (lines : List Line) :
    Returns k.key (fileText lines) (BitVec.ofNat 64 (lookup k.name lines)) := by
  induction lines with
  | nil => exact .fail rfl
  | cons l lines ih =>
    have same : l.key = k.key ↔ l.name = k.name := List.append_left_inj [':']
    have read := l.entry_text (fileText lines)
    rw [Line.ending] at read
    cases has : l.unit with
    | true =>
      have unit : word ([' ', 'k', 'B', '\n'] ++ fileText lines)
          = some (['k', 'B'], ['\n'] ++ fileText lines) :=
        (word_blank (b := [' ']) (by decide) _).trans
          (word_append (t := ['k', 'B']) (by decide) (by decide) (by simp [Stops, isSpace]))
      rw [has, if_pos rfl, unit] at read
      rw [lookup_cons has]
      split
      · rename_i eq
        rw [Option.map_some, same.mpr eq] at read
        exact .found read
      · rename_i ne
        exact .next read (mt same.mp ne) (.blank ['\n'] newline_blank ih)
    | false =>
      -- the unit is whatever word comes next, on the next line
      rw [has, if_neg (by decide), word_blank newline_blank] at read
      cases lines with
      | nil =>
        rw [lookup, if_neg (by rw [has]; simp)]
        exact .fail read
      | cons l' lines =>
        rw [show fileText (l' :: lines) = l'.text ++ fileText lines from rfl, l'.word_text,
          Option.map_some] at read
        rw [lookup, has, if_neg Bool.false_ne_true]
        split
        · rename_i eq
          rw [same.mpr eq] at read
          exact .found read
        · rename_i ne
          exact .next read (mt same.mp ne) (returns_shifted k l' lines)

/-- The line is found: no line before it lacks its unit, and it has its own or is not the last. -/
def Found (lines : List Line) (i : ℕ) (l : Line) : Prop :=
  (∀ l' ∈ lines.take i, l'.unit = true) ∧ (l.unit = true ∨ i + 1 < lines.length)

instance (lines : List Line) (i : ℕ) (l : Line) : Decidable (Found lines i l) :=
  inferInstanceAs (Decidable (_ ∧ _))

/-- The lookup by name gives the value of a line that is found, and 0 otherwise. -/
lemma lookup_eq {lines : List Line} (distinct : (lines.map Line.name).Nodup) {i : ℕ} {l : Line}
    (line : lines[i]? = some l) : lookup l.name lines = if Found lines i l then l.value else 0 := by
  induction lines generalizing i with
  | nil => cases line
  | cons l₀ lines ih =>
    obtain ⟨fresh, distinct'⟩ := List.nodup_cons.mp distinct
    cases i with
    | zero =>
      obtain rfl : l₀ = l := Option.some.inj line
      cases lines with
      | nil => simp [lookup, Found]
      | cons l' lines => simp [lookup, Found]
    | succ i =>
      have line' : lines[i]? = some l := line
      have ne : l₀.name ≠ l.name := by
        intro eq
        exact fresh (eq ▸ List.mem_map_of_mem (List.mem_of_getElem? line'))
      cases has : l₀.unit with
      | true =>
        rw [lookup_cons has, if_neg ne, ih distinct' line']
        congr 1
        simp [Found, has]
      | false =>
        have none : lookup l.name (l₀ :: lines) = 0 := by
          cases lines with
          | nil => simp [lookup, has]
          | cons l' lines => simp [lookup, has, ne]
        rw [none, if_neg]
        rintro ⟨units, _⟩
        have := units l₀ (by simp)
        rw [has] at this
        cases this

/-- A value has 64 bits. -/
lemma lookup_lt {lines : List Line} (name : List Char) : lookup name lines < 2 ^ 64 := by
  fun_induction lookup name lines with
  | case1 => decide
  | case2 l => exact l.fits
  | case3 => decide
  | case4 l => exact l.fits
  | case5 _ _ _ _ _ ih => exact ih
  | case6 => decide

/-- The value of a line is returned, unless it is zero anyway, just when no line before it lacks its
unit and the line itself has one or is not the last. -/
theorem meminfo_field_iff (lines : List Line) (distinct : (lines.map Line.name).Nodup) (i : ℕ) (l : Line)
    (line : lines[i]? = some l) :
    ((readMeminfoField l.key (fileText lines)).toNat = l.value ↔ l.value = 0 ∨ Found lines i l) ∧
    (l.name = "HugePages_Free".toList →
      ((availableHugePages (fileText lines)).toNat = l.value ↔ l.value = 0 ∨ Found lines i l)) ∧
    (l.name = "HugePages_Total".toList →
      ((totalHugePages (fileText lines)).toNat = l.value ↔ l.value = 0 ∨ Found lines i l)) := by
  have field : (readMeminfoField l.key (fileText lines)).toNat = l.value ↔
      l.value = 0 ∨ Found lines i l := by
    rw [(returns_lookup l lines).eq, BitVec.toNat_ofNat, Nat.mod_eq_of_lt (lookup_lt l.name),
      lookup_eq distinct line]
    split
    · rename_i found
      exact ⟨fun _ => .inr found, fun _ => rfl⟩
    · rename_i lost
      constructor
      · intro zero
        exact .inl zero.symm
      · rintro (zero | found)
        · exact zero.symm
        · exact absurd found lost
  refine ⟨field, ?_, ?_⟩
  · intro name
    rw [Line.key, name] at field
    exact field
  · intro name
    rw [Line.key, name] at field
    exact field

/-- A file with a line in kilobytes, the two lines of huge pages and their size. -/
def hugePageLines : List Line :=
  [{ name := "MemTotal".toList, gap := 7, digits := "16384".toList, unit := true, name_solid := by decide,
     digits_ne := by decide, isDigit := by decide, fits := by decide },
   { name := "HugePages_Total".toList, gap := 7, digits := "4".toList, unit := false,
     name_solid := by decide, digits_ne := by decide, isDigit := by decide, fits := by decide },
   { name := "HugePages_Free".toList, gap := 8, digits := "3".toList, unit := false,
     name_solid := by decide, digits_ne := by decide, isDigit := by decide, fits := by decide },
   { name := "Hugepagesize".toList, gap := 7, digits := "2048".toList, unit := true,
     name_solid := by decide, digits_ne := by decide, isDigit := by decide, fits := by decide }]

/-- The total of a file with four huge pages. -/
theorem huge_pages_total_found : (totalHugePages (fileText hugePageLines)).toNat = 4 := by
  have distinct : (hugePageLines.map Line.name).Nodup := by decide +kernel
  have iff := (meminfo_field_iff hugePageLines distinct 1 _ rfl).2.2 rfl
  exact iff.mpr (.inr (by decide +kernel))

/-- The free huge pages are not found: the line before them has no unit. -/
theorem huge_pages_free_lost :
    fileText hugePageLines = ("MemTotal:        16384 kB\nHugePages_Total:        4\n" ++
      "HugePages_Free:         3\nHugepagesize:        2048 kB\n").toList ∧
    (hugePageLines.map Line.name).Nodup ∧
    (∃ l ∈ hugePageLines, l.name = "HugePages_Free".toList ∧ l.value = 3) ∧
    (availableHugePages (fileText hugePageLines)).toNat = 0 := by
  refine ⟨by decide +kernel, by decide +kernel, by decide +kernel, by decide +kernel⟩

end UxNet.Pool
