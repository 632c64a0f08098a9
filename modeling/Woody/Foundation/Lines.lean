import Mathlib.Data.List.Infix
import Mathlib.Data.List.TakeWhile
import Mathlib.Tactic.TypeStar

/-!
# Separated text

A text is cut at a separator of one symbol, or of two different symbols, such
as the end of a line.  The head of a message is its lines up to the first
empty one.
-/

namespace Woody

namespace Separated

variable {α : Type*}

theorem not_mem_of_mem_splitOn [DecidableEq α] {separator : α}
    {text piece : List α} (member : piece ∈ text.splitOn separator) :
    separator ∉ piece := by
  induction text generalizing piece with
  | nil =>
      rw [List.splitOn_nil, List.mem_singleton] at member
      simp [member]
  | cons symbol text ih =>
      rw [List.splitOn_cons_eq_if_modifyHead] at member
      split at member
      · rcases List.mem_cons.mp member with rfl | later
        · exact List.not_mem_nil
        · exact ih later
      · next other =>
          obtain ⟨first, later, pieces⟩ :=
            List.exists_cons_of_ne_nil (List.splitOn_ne_nil separator text)
          rw [pieces] at ih member
          rcases List.mem_cons.mp member with rfl | behind
          · have different : separator ≠ symbol := fun same =>
              other (beq_iff_eq.mpr same.symm)
            exact List.not_mem_cons_of_ne_of_not_mem different
              (ih List.mem_cons_self)
          · exact ih (List.mem_cons_of_mem _ behind)

theorem eq_of_splitOn [DecidableEq α] {separator : α} {text first : List α}
    {later : List (List α)}
    (pieces : text.splitOn separator = first :: later) :
    text = first ++ later.flatMap (separator :: ·) := by
  induction text generalizing first later with
  | nil =>
      rw [List.splitOn_nil] at pieces
      cases pieces
      rfl
  | cons symbol text ih =>
      obtain ⟨head, tail, split⟩ :=
        List.exists_cons_of_ne_nil (List.splitOn_ne_nil separator text)
      have rest := ih split
      rw [List.splitOn_cons_eq_if_modifyHead, split] at pieces
      split at pieces
      · next same =>
          cases pieces
          rw [beq_iff_eq.mp same, rest]
          simp
      · cases pieces
        rw [List.cons_append, ← rest]

theorem all_ne_of_not_mem [DecidableEq α] {separator : α} {text : List α}
    (absent : separator ∉ text) :
    ∀ symbol ∈ text, decide (symbol ≠ separator) = true :=
  fun _ member => decide_eq_true fun same => absent (same ▸ member)

theorem takeWhile_append_separator [DecidableEq α] {separator : α}
    {before : List α} (clean : separator ∉ before) (after : List α) :
    (before ++ separator :: after).takeWhile (· ≠ separator) = before := by
  rw [List.takeWhile_append_of_pos (all_ne_of_not_mem clean),
    List.takeWhile_cons_of_neg (by simp), List.append_nil]

/-- What stands in front of the first separator does not depend on what is
behind one. -/
theorem takeWhile_append_cons [DecidableEq α] (separator : α)
    (before after : List α) :
    (before ++ separator :: after).takeWhile (· ≠ separator) =
      before.takeWhile (· ≠ separator) := by
  by_cases inside : separator ∈ before
  · obtain ⟨front, rest, rfl, clean⟩ := List.eq_append_cons_of_mem inside
    rw [List.append_assoc, List.cons_append,
      takeWhile_append_separator clean, takeWhile_append_separator clean]
  · rw [takeWhile_append_separator inside,
      List.takeWhile_eq_self_iff.mpr (all_ne_of_not_mem inside)]

theorem dropWhile_append_separator [DecidableEq α] {separator : α}
    {before : List α} (clean : separator ∉ before) (after : List α) :
    (before ++ separator :: after).dropWhile (· ≠ separator) =
      separator :: after := by
  rw [List.dropWhile_append_of_pos (all_ne_of_not_mem clean),
    List.dropWhile_cons_of_neg (by simp)]

section Separator

variable {a b : α}

theorem infix_cons_cons_iff {first second : α} {rest : List α} :
    [a, b] <:+: first :: second :: rest ↔
      (first = a ∧ second = b) ∨ [a, b] <:+: second :: rest := by
  rw [List.infix_cons_iff, List.cons_prefix_cons, List.cons_prefix_cons]
  simp [eq_comm]

theorem not_infix_nil : ¬ [a, b] <:+: ([] : List α) := by
  simp

theorem not_infix_singleton (symbol : α) : ¬ [a, b] <:+: [symbol] := by
  intro inside
  exact absurd inside.length_le (by simp)

/-- A text with a symbol of its own in the middle has the separator on one of
the two sides. -/
theorem infix_append_cons_iff {symbol : α} (notFirst : symbol ≠ a)
    (notSecond : symbol ≠ b) (before after : List α) :
    [a, b] <:+: before ++ symbol :: after ↔
      [a, b] <:+: before ∨ [a, b] <:+: after := by
  induction before with
  | nil =>
      cases after with
      | nil => simp [not_infix_singleton]
      | cons second rest =>
          rw [List.nil_append, infix_cons_cons_iff]
          simp [notFirst]
  | cons first before ih =>
      cases before with
      | nil =>
          rw [List.nil_append] at ih
          rw [List.cons_append, List.nil_append, infix_cons_cons_iff, ih]
          simp [notSecond, not_infix_singleton]
      | cons second before =>
          rw [List.cons_append] at ih
          rw [List.cons_append, List.cons_append, infix_cons_cons_iff, ih,
            infix_cons_cons_iff, or_assoc]

end Separator

section Cut

variable [DecidableEq α] (a b : α)

/-- What is in front of the first `a b` of a text, and behind it. -/
def cut : List α → Option (List α × List α)
  | first :: second :: rest =>
      if first = a ∧ second = b then
        some ([], rest)
      else
        (cut (second :: rest)).map fun parts => (first :: parts.1, parts.2)
  | _ => none

variable {a b}

theorem cut_append (distinct : a ≠ b) {before : List α}
    (clean : ¬ [a, b] <:+: before) (after : List α) :
    cut a b (before ++ a :: b :: after) = some (before, after) := by
  induction before with
  | nil => simp [cut]
  | cons first before ih =>
      cases before with
      | nil =>
          have other : ¬ (first = a ∧ a = b) := fun both => distinct both.2
          rw [List.nil_append] at ih
          rw [List.cons_append, List.nil_append, cut, if_neg other,
            ih not_infix_nil]
          rfl
      | cons second before =>
          rw [infix_cons_cons_iff, not_or] at clean
          rw [List.cons_append] at ih
          rw [List.cons_append, List.cons_append, cut, if_neg clean.1,
            ih clean.2]
          rfl

theorem eq_of_cut {text before after : List α}
    (found : cut a b text = some (before, after)) :
    text = before ++ a :: b :: after ∧ ¬ [a, b] <:+: before := by
  induction text generalizing before with
  | nil => cases found
  | cons first text ih =>
      cases text with
      | nil => cases found
      | cons second rest =>
          rw [cut] at found
          split at found
          · next isSeparator =>
              obtain ⟨rfl, rfl⟩ := isSeparator
              cases found
              exact ⟨rfl, not_infix_nil⟩
          · next other =>
              obtain ⟨⟨later, behind⟩, isCut, parts⟩ :=
                Option.map_eq_some_iff.mp found
              cases parts
              obtain ⟨shape, clean⟩ := ih isCut
              refine ⟨by rw [List.cons_append, ← shape], ?_⟩
              cases later with
              | nil => exact not_infix_singleton first
              | cons head later =>
                  have same : second = head := (List.cons.inj shape).1
                  rw [infix_cons_cons_iff, not_or]
                  exact ⟨same ▸ other, clean⟩

theorem cut_eq_some_iff (distinct : a ≠ b) {text before after : List α} :
    cut a b text = some (before, after) ↔
      text = before ++ a :: b :: after ∧ ¬ [a, b] <:+: before := by
  constructor
  · exact eq_of_cut
  · rintro ⟨rfl, clean⟩
    exact cut_append distinct clean after

end Cut

section Lines

variable (a b : α)

/-- The lines of a text, each with its end. -/
def unlines (lines : List (List α)) : List α :=
  lines.flatMap fun line => line ++ [a, b]

/-- A line that is read as one line. -/
def IsLine (line : List α) : Prop := line ≠ [] ∧ ¬ [a, b] <:+: line

variable {a b}

theorem unlines_cons (line : List α) (lines : List (List α)) :
    unlines a b (line :: lines) = line ++ a :: b :: unlines a b lines := by
  simp [unlines]

/-- Every line has an end, so that the length of a text is enough fuel. -/
theorem length_lt_length_unlines (lines : List (List α)) (body : List α) :
    lines.length < (unlines a b lines ++ a :: b :: body).length := by
  induction lines with
  | nil => simp [unlines]
  | cons line lines ih =>
      rw [unlines_cons]
      simp only [List.length_append, List.length_cons] at ih ⊢
      omega

end Lines

section Head

variable [DecidableEq α] (a b : α)

/-- The lines up to the first empty one, at most `fuel` of them, and what is
behind it. -/
def readLines : Nat → List α → Option (List (List α) × List α)
  | 0, _ => none
  | fuel + 1, text =>
      match cut a b text with
      | none => none
      | some ([], rest) => some ([], rest)
      | some (line, rest) =>
          (readLines fuel rest).map fun head => (line :: head.1, head.2)

/-- The lines in front of the first empty line, and the text behind it. -/
def readHead (text : List α) : Option (List (List α) × List α) :=
  readLines a b text.length text

variable {a b}

theorem eq_of_readLines {fuel : Nat} {text body : List α}
    {lines : List (List α)}
    (found : readLines a b fuel text = some (lines, body)) :
    text = unlines a b lines ++ a :: b :: body ∧
      ∀ line ∈ lines, IsLine a b line := by
  induction fuel generalizing text lines with
  | zero => cases found
  | succ fuel ih =>
      rw [readLines] at found
      split at found
      · cases found
      · next rest isCut =>
          cases found
          exact ⟨(eq_of_cut isCut).1, fun line member => nomatch member⟩
      · next line rest some_ isCut =>
          obtain ⟨⟨later, behind⟩, isHead, parts⟩ :=
            Option.map_eq_some_iff.mp found
          cases parts
          obtain ⟨shape, clean⟩ := eq_of_cut isCut
          obtain ⟨rfl, areLines⟩ := ih isHead
          refine ⟨by rw [shape, unlines_cons]; simp, ?_⟩
          exact List.forall_mem_cons.mpr ⟨⟨some_, clean⟩, areLines⟩

theorem readLines_unlines (distinct : a ≠ b) {fuel : Nat}
    {lines : List (List α)} (areLines : ∀ line ∈ lines, IsLine a b line)
    (enough : lines.length < fuel) (body : List α) :
    readLines a b fuel (unlines a b lines ++ a :: b :: body) =
      some (lines, body) := by
  induction fuel generalizing lines with
  | zero => exact (Nat.not_lt_zero _ enough).elim
  | succ fuel ih =>
      cases lines with
      | nil =>
          have isCut : cut a b (a :: b :: body) = some ([], body) :=
            cut_append distinct not_infix_nil body
          simp only [unlines, List.flatMap_nil, List.nil_append, readLines,
            isCut]
      | cons line lines =>
          obtain ⟨⟨some_, clean⟩, later⟩ := List.forall_mem_cons.mp areLines
          have shape : unlines a b (line :: lines) ++ a :: b :: body =
              line ++ a :: b :: (unlines a b lines ++ a :: b :: body) := by
            rw [unlines_cons, List.append_assoc]
            rfl
          have isCut := cut_append distinct clean
            (unlines a b lines ++ a :: b :: body)
          obtain ⟨symbol, line, rfl⟩ := List.exists_cons_of_ne_nil some_
          rw [shape, readLines, isCut]
          have read := ih later (Nat.lt_of_succ_lt_succ enough)
          simp only [read, Option.map_some]

/-- A head is read from exactly the texts that are written from it. -/
theorem readHead_eq_some_iff (distinct : a ≠ b) {text body : List α}
    {lines : List (List α)} :
    readHead a b text = some (lines, body) ↔
      text = unlines a b lines ++ a :: b :: body ∧
        ∀ line ∈ lines, IsLine a b line := by
  constructor
  · exact eq_of_readLines
  · rintro ⟨rfl, areLines⟩
    exact readLines_unlines distinct areLines
      (length_lt_length_unlines lines body) body

end Head

end Separated

end Woody
