import UxNet.Lib.Strto

/-!
# The node of an allocation

`verify_allocation_node` of `numa_util.cpp`, on the text of `/proc/self/numa_maps`. It takes the line with
the largest start address that is not above the pointer, looks in it for `N`, a number, `=` and another
number, wherever they are, and compares the node that has the most pages.

The kernel writes a line for each mapping: its start, its policy and a number of fields, one of them for
each node. The name of a mapped file may have an `N` and a number in it, but the kernel escapes the `=` of a
name (`Plain.value_escaped`), so none of these is taken for a node.
-/

namespace UxNet.Numa

open Scan

/-- `best_line` and `best_start`, once a line is found. -/
structure Best where
  start : BitVec 64
  line : List Char

/-- One round of the loop over the lines. -/
def pick (target : BitVec 64) (best : Option Best) (line : List Char) : Option Best :=
  match best with
  | none => if strtoull16 line ≤ target then some ⟨strtoull16 line, line⟩ else none
  | some b => if strtoull16 line ≤ target && b.start < strtoull16 line then some ⟨strtoull16 line, line⟩ else best

/-- `best_pages` and `best_node`. -/
structure Most where
  pages : ℤ
  node : ℤ
deriving DecidableEq, Repr

/-- What follows an `N`; `best_node` is an `int`. -/
def visit (s : List Char) (most : Most) : Most :=
  if (s.head?.map Char.isDigit).getD false then
    let node := strtol s
    match node.2 with
    | '=' :: rest =>
      if most.pages < (strtol rest).1 then
        { pages := (strtol rest).1, node := (BitVec.ofInt 32 node.1).toInt }
      else most
    | _ => most
  else most

/-- The loop over the places of `N`. -/
def nodeScan : List Char → Most → Most
  | [], most => most
  | c :: s, most => nodeScan s (if c = 'N' then visit s most else most)

/-- `verify_allocation_node`. -/
def verifyAllocationNode (text : List Char) (ptr : BitVec 64) (expectedNode : ℤ) : Bool :=
  match (lines text).foldl (pick ptr) none with
  | none => false
  | some best => (nodeScan best.line { pages := -1, node := -1 }).node = expectedNode

/-! ## The file -/

/-- A field that is not about a node: a word, or a word, `=` and a value. -/
structure Plain where
  word : List Char
  value : Option (List Char)
  word_no_N : 'N' ∉ word
  word_oneLine : '\n' ∉ word
  value_escaped : ∀ v ∈ value, '=' ∉ v
  value_oneLine : ∀ v ∈ value, '\n' ∉ v

/-- The field of a node, `N` node `=` pages. -/
structure OnNode where
  node : List Char
  pages : List Char
  node_ne : node ≠ []
  node_digits : Digits node
  node_fits : decimal node < 2 ^ 31
  pages_ne : pages ≠ []
  pages_digits : Digits pages
  pages_fits : decimal pages < 2 ^ 63

/-- A field of a line. -/
inductive Field where
  | plain (p : Plain)
  | onNode (n : OnNode)

/-- The field as it is written. -/
def Field.text : Field → List Char
  | .plain p => ' ' :: (p.word ++ (p.value.elim [] fun v => '=' :: v))
  | .onNode n => ' ' :: 'N' :: (n.node ++ '=' :: n.pages)

/-- The nodes of some fields. -/
def nodesOf (fields : List Field) : List (ℕ × ℕ) :=
  fields.filterMap fun
    | .plain _ => none
    | .onNode n => some (decimal n.node, decimal n.pages)

/-- A node is counted if it has more pages than the best so far. -/
def better (most : Most) (x : ℕ × ℕ) : Most :=
  if most.pages < x.2 then { pages := x.2, node := x.1 } else most

/-- A line of the file. -/
structure Mapping where
  address : List Char
  fields : List Field
  address_ne : address ≠ []
  address_hex : ∀ c ∈ address, isHex c = true
  address_fits : hexadecimal address < 2 ^ 64
  fields_ne : fields ≠ []

namespace Mapping

/-- Where the mapping starts. -/
def start (m : Mapping) : ℕ := hexadecimal m.address

/-- The nodes with their pages. -/
def nodes (m : Mapping) : List (ℕ × ℕ) := nodesOf m.fields

/-- The line without its end. -/
def line (m : Mapping) : List Char := m.address ++ m.fields.flatMap Field.text

/-- The first of the nodes with the most pages, or -1. -/
def home (m : Mapping) : ℤ := (m.nodes.foldl better { pages := -1, node := -1 }).node

end Mapping

/-- The text of the file. -/
def fileText (ms : List Mapping) : List Char := ms.flatMap fun m => m.line ++ ['\n']

/-! ## The nodes of a line -/

section Line

variable {t s : List Char} {most : Most}

/-- The rest of a line begins with neither a digit nor `=`. -/
def Ends (s : List Char) : Prop := ∀ c ∈ s.head?, c.isDigit = false ∧ c ≠ '='

/-- Nothing is found where there is no `N`. -/
lemma nodeScan_no_N (none : 'N' ∉ t) (s : List Char) : nodeScan (t ++ s) most = nodeScan s most := by
  induction t with
  | nil => rfl
  | cons c t ih =>
    have other : ¬c = 'N' := Ne.symm (List.ne_of_not_mem_cons none)
    rw [List.cons_append, nodeScan, if_neg other, ih (List.not_mem_of_not_mem_cons none)]

/-- No digits of a text without `=` are followed by one. -/
lemma dropWhile_no_eq (none : '=' ∉ t) (ends : Ends s) (r : List Char) :
    (t ++ s).dropWhile Char.isDigit ≠ '=' :: r := by
  induction t with
  | nil =>
    cases s with
    | nil => nofun
    | cons c s =>
      obtain ⟨digit, other⟩ := ends c rfl
      rw [List.nil_append, List.dropWhile_cons_of_neg (by rw [digit]; decide)]
      exact fun starts => other (List.cons.inj starts).1
  | cons c t ih =>
    by_cases digit : c.isDigit = true
    · rw [List.cons_append, List.dropWhile_cons_of_pos digit]
      exact ih (List.not_mem_of_not_mem_cons none)
    · rw [List.cons_append, List.dropWhile_cons_of_neg digit]
      exact fun starts => List.ne_of_not_mem_cons none (List.cons.inj starts).1.symm

/-- A number that no `=` follows is not a node. -/
lemma visit_no_eq (none : '=' ∉ t) (ends : Ends s) : visit (t ++ s) most = most := by
  have rest := dropWhile_no_eq none ends
  generalize t ++ s = u at rest ⊢
  cases u with
  | nil => rfl
  | cons c u =>
    by_cases digit : c.isDigit = true
    · rw [visit, if_pos (by simpa using digit)]
      -- `rest` is what rules out the case of `=`
      simp only [strtol_rest digit]
    · rw [visit, if_neg (by simpa using digit)]

/-- Nothing is found where there is no `=`. -/
lemma nodeScan_no_eq (none : '=' ∉ t) (ends : Ends s) : nodeScan (t ++ s) most = nodeScan s most := by
  induction t with
  | nil => rfl
  | cons c t ih =>
    have none := List.not_mem_of_not_mem_cons none
    rw [List.cons_append, nodeScan, visit_no_eq none ends, ite_self, ih none]

/-- The field of a node is read back. -/
lemma visit_onNode (n : OnNode) (ends : Ends s) :
    visit (n.node ++ '=' :: (n.pages ++ s)) most = better most (decimal n.node, decimal n.pages) := by
  have first : ((n.node ++ '=' :: (n.pages ++ s)).head?.map Char.isDigit).getD false = true := by
    cases e : n.node with
    | nil => exact absurd e n.node_ne
    | cons c t =>
      have digit := n.node_digits c (by rw [e]; exact List.mem_cons_self ..)
      simpa using digit
  have node : strtol (n.node ++ '=' :: (n.pages ++ s)) = ((decimal n.node : ℤ), '=' :: (n.pages ++ s)) :=
    strtol_append n.node_ne n.node_digits (by have := n.node_fits; omega) (by simp)
  have pages : strtol (n.pages ++ s) = ((decimal n.pages : ℤ), s) :=
    strtol_append n.pages_ne n.pages_digits n.pages_fits fun c first => (ends c first).1
  have same : (BitVec.ofInt 32 (decimal n.node : ℤ)).toInt = decimal n.node := by
    have fits := n.node_fits
    rw [BitVec.toInt_ofInt]
    simp only [Int.bmod]
    omega
  rw [visit, if_pos first]
  simp only [node, pages, same]
  rfl

/-- Digits have no `N`. -/
lemma digits_no_N (digits : Digits t) : 'N' ∉ t := fun mem => absurd (digits 'N' mem) (by decide)

/-- A field for a node is compared with the best so far. -/
lemma nodeScan_onNode (n : OnNode) (ends : Ends s) :
    nodeScan ((Field.onNode n).text ++ s) most = nodeScan s (better most (decimal n.node, decimal n.pages)) := by
  have rest : nodeScan ((n.node ++ '=' :: n.pages) ++ s) (better most (decimal n.node, decimal n.pages))
      = nodeScan s (better most (decimal n.node, decimal n.pages)) := by
    refine nodeScan_no_N ?_ s
    simp [digits_no_N n.node_digits, digits_no_N n.pages_digits]
  have text : (Field.onNode n).text ++ s = ' ' :: 'N' :: (n.node ++ '=' :: (n.pages ++ s)) := by
    simp [Field.text]
  rw [text, nodeScan, if_neg (by decide), nodeScan, if_pos rfl, visit_onNode n ends, ← rest]
  congr 1
  simp

/-- Any other field is passed over. -/
lemma nodeScan_plain (p : Plain) (ends : Ends s) :
    nodeScan ((Field.plain p).text ++ s) most = nodeScan s most := by
  have text : (Field.plain p).text ++ s = (' ' :: p.word) ++ ((p.value.elim [] fun v => '=' :: v) ++ s) := by
    simp [Field.text]
  have word : 'N' ∉ ' ' :: p.word := by simp [p.word_no_N]
  rw [text, nodeScan_no_N word]
  cases e : p.value with
  | none => rfl
  | some v =>
    show nodeScan ('=' :: (v ++ s)) most = _
    rw [nodeScan, if_neg (by decide)]
    exact nodeScan_no_eq (p.value_escaped v e) ends

/-- A field ends at the space before the next one. -/
lemma fields_end (fields : List Field) : Ends (fields.flatMap Field.text) := by
  cases fields with
  | nil => nofun
  | cons f fields =>
    cases f with
    | plain p => simp [Ends, Field.text]
    | onNode n => simp [Ends, Field.text]

/-- The scan takes the fields in order. -/
lemma nodeScan_fields (fields : List Field) (most : Most) :
    nodeScan (fields.flatMap Field.text) most = (nodesOf fields).foldl better most := by
  induction fields generalizing most with
  | nil => rfl
  | cons f fields ih =>
    rw [List.flatMap_cons]
    cases f with
    | plain p =>
      rw [nodeScan_plain p (fields_end fields), ih]
      rfl
    | onNode n =>
      rw [nodeScan_onNode n (fields_end fields), ih]
      rfl

/-- The line of a mapping gives its node. -/
lemma nodeScan_line (m : Mapping) : (nodeScan m.line { pages := -1, node := -1 }).node = m.home := by
  have address : 'N' ∉ m.address := fun mem => absurd (m.address_hex 'N' mem) (by decide)
  rw [Mapping.line, nodeScan_no_N address, nodeScan_fields]
  rfl

/-- The line of a mapping gives its start. -/
lemma strtoull16_line (m : Mapping) : strtoull16 m.line = BitVec.ofNat 64 m.start := by
  have blank : ∃ s, m.fields.flatMap Field.text = ' ' :: s := by
    cases e : m.fields with
    | nil => exact absurd e m.fields_ne
    | cons f fields =>
      cases f with
      | plain p => exact ⟨_, rfl⟩
      | onNode n => exact ⟨_, rfl⟩
  obtain ⟨s, eq⟩ := blank
  rw [Mapping.line, eq]
  exact strtoull16_append m.address_ne m.address_hex m.address_fits s

/-- A line has no newline. -/
lemma line_plain (m : Mapping) : '\n' ∉ m.line := by
  intro mem
  rcases List.mem_append.mp mem with mem | mem
  · exact absurd (m.address_hex _ mem) (by decide)
  · obtain ⟨f, _, mem⟩ := List.mem_flatMap.mp mem
    cases f with
    | plain p =>
      rcases List.mem_cons.mp mem with is | mem
      · exact absurd is (by decide)
      · rcases List.mem_append.mp mem with mem | mem
        · exact p.word_oneLine mem
        · cases e : p.value with
          | none => simp [e] at mem
          | some v => simp [e, p.value_oneLine v e] at mem
    | onNode n =>
      have node : '\n' ∉ n.node := fun mem => absurd (n.node_digits _ mem) (by decide)
      have pages : '\n' ∉ n.pages := fun mem => absurd (n.pages_digits _ mem) (by decide)
      simp [Field.text, node, pages] at mem

end Line

/-! ## The choice of the line -/

/-- What the loop over the lines has found. -/
def Picked (ptr : BitVec 64) (ms : List Mapping) : Option Best → Prop
  | none => ∀ m ∈ ms, ptr.toNat < m.start
  | some best => ∃ m ∈ ms, best = ⟨BitVec.ofNat 64 m.start, m.line⟩ ∧ m.start ≤ ptr.toNat ∧
    ∀ m' ∈ ms, m'.start ≤ ptr.toNat → m'.start ≤ m.start

/-- A start has 64 bits. -/
lemma toNat_start (m : Mapping) : (BitVec.ofNat 64 m.start).toNat = m.start := by
  rw [BitVec.toNat_ofNat]
  exact Nat.mod_eq_of_lt m.address_fits

/-- Starts are compared as numbers. -/
lemma start_le_iff (m : Mapping) (ptr : BitVec 64) : BitVec.ofNat 64 m.start ≤ ptr ↔ m.start ≤ ptr.toNat := by
  rw [BitVec.le_def, toNat_start]

/-- A line is compared with the best so far. -/
lemma Picked.step {ptr : BitVec 64} {ms : List Mapping} {best : Option Best} (h : Picked ptr ms best)
    (m : Mapping) : Picked ptr (ms ++ [m]) (pick ptr best m.line) := by
  cases best with
  | none =>
    rw [pick, strtoull16_line]
    by_cases le : m.start ≤ ptr.toNat
    · simp only [if_pos ((start_le_iff m ptr).mpr le)]
      refine ⟨m, by simp, rfl, le, ?_⟩
      intro m' mem low
      rcases List.mem_append.mp mem with old | new
      · exact absurd (h m' old) (by omega)
      · rw [List.mem_singleton.mp new]
    · simp only [if_neg (mt (start_le_iff m ptr).mp le)]
      intro m' mem
      rcases List.mem_append.mp mem with old | new
      · exact h m' old
      · rw [List.mem_singleton.mp new]
        omega
  | some b =>
    obtain ⟨k, here, rfl, low, top⟩ := h
    rw [pick, strtoull16_line]
    have test : (decide (BitVec.ofNat 64 m.start ≤ ptr) && decide (BitVec.ofNat 64 k.start < BitVec.ofNat 64 m.start))
        = true ↔ m.start ≤ ptr.toNat ∧ k.start < m.start := by
      rw [Bool.and_eq_true, decide_eq_true_eq, decide_eq_true_eq, start_le_iff, BitVec.lt_def, toNat_start,
        toNat_start]
    by_cases more : m.start ≤ ptr.toNat ∧ k.start < m.start
    · simp only [if_pos (test.mpr more)]
      refine ⟨m, by simp, rfl, more.1, ?_⟩
      intro m' mem low'
      rcases List.mem_append.mp mem with old | new
      · have := top m' old low'
        omega
      · rw [List.mem_singleton.mp new]
    · simp only [if_neg (mt test.mp more)]
      refine ⟨k, List.mem_append_left _ here, rfl, low, ?_⟩
      intro m' mem low'
      rcases List.mem_append.mp mem with old | new
      · exact top m' old low'
      · rw [List.mem_singleton.mp new] at low' ⊢
        omega

/-- The loop finds the mapping with the largest start that is not above the pointer. -/
lemma picked (ptr : BitVec 64) (ms : List Mapping) :
    Picked ptr ms ((lines (fileText ms)).foldl (pick ptr) none) := by
  have text : fileText ms = (ms.map Mapping.line).flatMap fun l => l ++ ['\n'] := by
    rw [fileText, List.flatMap_map]
  have plain : ∀ l ∈ ms.map Mapping.line, '\n' ∉ l := by
    intro l mem
    obtain ⟨m, _, rfl⟩ := List.mem_map.mp mem
    exact line_plain m
  rw [text, lines_flatMap _ plain]
  clear text plain
  induction ms using List.reverseRecOn with
  | nil => nofun
  | append_singleton ms m ih =>
    rw [List.map_append, List.foldl_append]
    exact ih.step m

/-- The node of a mapping is the first one with the most pages. -/
lemma home_most (m : Mapping) (nonempty : m.nodes ≠ []) :
    ∃ before x after, m.nodes = before ++ x :: after ∧ m.home = x.1 ∧
      (∀ y ∈ before, y.2 < x.2) ∧ (∀ y ∈ after, y.2 ≤ x.2) := by
  have run : ∃ before x after, m.nodes = before ++ x :: after ∧ m.nodes.foldl better ⟨-1, -1⟩ = ⟨x.2, x.1⟩ ∧
      (∀ y ∈ before, y.2 < x.2) ∧ (∀ y ∈ after, y.2 ≤ x.2) := by
    generalize m.nodes = xs at nonempty
    induction xs using List.reverseRecOn with
    | nil => exact absurd rfl nonempty
    | append_singleton xs z ih =>
      rw [List.foldl_append, List.foldl_cons, List.foldl_nil]
      rcases eq_or_ne xs [] with rfl | some
      · have first : better ⟨-1, -1⟩ z = ⟨z.2, z.1⟩ := if_pos (show (-1 : ℤ) < z.2 by omega)
        exact ⟨[], z, [], rfl, first, nofun, nofun⟩
      · obtain ⟨before, x, after, split, eq, less, top⟩ := ih some
        rw [eq, better]
        by_cases more : x.2 < z.2
        · refine ⟨xs, z, [], rfl, if_pos (Int.ofNat_lt.mpr more), ?_, nofun⟩
          intro y mem
          rw [split] at mem
          rcases List.mem_append.mp mem with mem | mem
          · exact lt_trans (less y mem) more
          · rcases List.mem_cons.mp mem with rfl | mem
            · exact more
            · exact lt_of_le_of_lt (top y mem) more
        · refine ⟨before, x, after ++ [z], by rw [split]; simp, if_neg (by simpa using more), less, ?_⟩
          intro y mem
          rcases List.mem_append.mp mem with old | new
          · exact top y old
          · rw [List.mem_singleton.mp new]
            exact Nat.le_of_not_lt more
  obtain ⟨before, x, after, split, eq, bounds⟩ := run
  exact ⟨before, x, after, split, by rw [Mapping.home, eq], bounds⟩

/-- For every file that the kernel can write: the answer is whether the expected node is that of the mapping
with the largest start that is not above the pointer, which is the first of its nodes with the most pages,
or -1 if it has none. If every mapping starts above the pointer, the answer is no. -/
theorem verify_allocation_node_iff (ms : List Mapping) (distinct : (ms.map Mapping.start).Nodup)
    (ptr : BitVec 64) (expectedNode : ℤ) :
    (∀ m ∈ ms, m.start ≤ ptr.toNat → (∀ m' ∈ ms, m'.start ≤ ptr.toNat → m'.start ≤ m.start) →
      (verifyAllocationNode (fileText ms) ptr expectedNode = true ↔ m.home = expectedNode) ∧
      (m.nodes = [] → m.home = -1) ∧
      (m.nodes ≠ [] → ∃ before x after, m.nodes = before ++ x :: after ∧ m.home = x.1 ∧
        (∀ y ∈ before, y.2 < x.2) ∧ (∀ y ∈ after, y.2 ≤ x.2))) ∧
    ((∀ m ∈ ms, ptr.toNat < m.start) → verifyAllocationNode (fileText ms) ptr expectedNode = false) := by
  have found := picked ptr ms
  unfold verifyAllocationNode
  constructor
  · intro m mem low top
    refine ⟨?_, fun none => by rw [Mapping.home, none]; rfl, home_most m⟩
    cases e : (lines (fileText ms)).foldl (pick ptr) none with
    | none =>
      rw [e] at found
      exact absurd (found m mem) (by omega)
    | some best =>
      rw [e] at found
      obtain ⟨k, here, rfl, low', top'⟩ := found
      have same : k = m :=
        List.inj_on_of_nodup_map distinct here mem (le_antisymm (top k here low') (top' m mem low))
      rw [same]
      show decide ((nodeScan m.line { pages := -1, node := -1 }).node = expectedNode) = true ↔ _
      rw [decide_eq_true_eq, nodeScan_line]
  · intro above
    cases e : (lines (fileText ms)).foldl (pick ptr) none with
    | none => rfl
    | some best =>
      rw [e] at found
      obtain ⟨k, here, _, low, _⟩ := found
      exact absurd (above k here) (by omega)

/-- A file with a misleading name, on node 1. -/
def libMapping : Mapping where
  address := "7f00".toList
  fields := [
    .plain ⟨"default".toList, none, by decide, by decide, nofun, nofun⟩,
    .plain ⟨"file".toList, some "/N0\\0759".toList, by decide, by decide, by decide, by decide⟩,
    .onNode ⟨"0".toList, "2".toList, by decide, by decide, by decide, by decide, by decide, by decide⟩,
    .onNode ⟨"1".toList, "5".toList, by decide, by decide, by decide, by decide, by decide, by decide⟩]
  address_ne := by decide
  address_hex := List.all_eq_true.mp (by decide)
  address_fits := by decide
  fields_ne := nofun

/-- A page of a library on node 1, and a pointer below it. -/
theorem verify_allocation_node_lib :
    libMapping.home = 1 ∧ verifyAllocationNode (fileText [libMapping]) 0x7f10#64 1 = true ∧
    verifyAllocationNode (fileText [libMapping]) 0x7eff#64 1 = false := by
  have home : libMapping.home = 1 := by decide
  have inside := (verify_allocation_node_iff [libMapping] (by decide) 0x7f10#64 1).1 libMapping (by simp)
    (by decide) (by simp)
  have below := (verify_allocation_node_iff [libMapping] (by decide) 0x7eff#64 1).2 (by decide)
  exact ⟨home, inside.1.mpr home, below⟩

end UxNet.Numa
