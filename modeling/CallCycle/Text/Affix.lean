/-!
# Prefixes, suffixes and separators

Cutting a known text off one end of a list, cutting at the last occurrence of an element, and
splitting a text into lines.
-/

namespace CallCycle.Text

variable {α : Type} [DecidableEq α]

/-- What follows `front` in `xs`, if `xs` starts with it. -/
def dropFront? : (front xs : List α) → Option (List α)
  | [], xs => some xs
  | _ :: _, [] => none
  | a :: front, x :: xs => if a = x then dropFront? front xs else none

/-- What precedes `back` in `xs`, if `xs` ends with it. -/
def dropBack? (back xs : List α) : Option (List α) :=
  (dropFront? back.reverse xs.reverse).map List.reverse

/-- `dropFront?` cuts off `front` and nothing else. -/
theorem dropFront?_eq_some_iff {front xs rest : List α} :
    dropFront? front xs = some rest ↔ xs = front ++ rest := by
  induction front generalizing xs with
  | nil => simp [dropFront?, eq_comm]
  | cons a front ih =>
    cases xs with
    | nil => simp [dropFront?]
    | cons x xs =>
      by_cases h : a = x
      · subst h; simp [dropFront?, ih]
      · simp [dropFront?, h, Ne.symm h]

/-- `dropBack?` cuts off `back` and nothing else. -/
theorem dropBack?_eq_some_iff {back xs rest : List α} :
    dropBack? back xs = some rest ↔ xs = rest ++ back := by
  simp only [dropBack?, Option.map_eq_some_iff, dropFront?_eq_some_iff]
  constructor
  · rintro ⟨r, h, rfl⟩
    have := congrArg List.reverse h
    simpa using this
  · rintro rfl
    exact ⟨rest.reverse, by simp, by simp⟩

/-- What follows the last `sep` in `xs`; all of `xs` if there is none. -/
def afterLast (sep : α) (xs : List α) : List α :=
  (xs.reverse.takeWhile (· ≠ sep)).reverse

/-- The parts of `xs` before and after its last `sep`, if there is one. -/
def splitLast? (sep : α) (xs : List α) : Option (List α × List α) :=
  match xs.reverse.dropWhile (· ≠ sep) with
  | [] => none
  | _ :: before => some (before.reverse, afterLast sep xs)

/-- The parts of `xs` before and after its first `sep`, if there is one. -/
def splitFirst? (sep : α) (xs : List α) : Option (List α × List α) :=
  match xs.dropWhile (· ≠ sep) with
  | [] => none
  | _ :: after => some (xs.takeWhile (· ≠ sep), after)

/-- The parts of `xs` between the occurrences of `sep`. -/
def pieces (sep : α) : (xs : List α) → List (List α)
  | [] => [[]]
  | x :: xs =>
    if x = sep then [] :: pieces sep xs
    else
      match pieces sep xs with
      | [] => [[x]]
      | piece :: rest => (x :: piece) :: rest

/-- The lines of a text.  A line ends with a line feed, which may follow a carriage return; the
    last line may go without, and then it keeps a carriage return. -/
def lines : (line : List Char) → (text : List Char) → List (List Char)
  | [], [] => []
  | line, [] => [line.reverse]
  | line, '\n' :: text =>
    (match line with
      | '\r' :: line => line.reverse
      | line => line.reverse) :: lines [] text
  | line, c :: text => lines (c :: line) text

/-- The lines of a string. -/
def linesOf (s : String) : List String :=
  (lines [] s.toList).map String.ofList

end CallCycle.Text
