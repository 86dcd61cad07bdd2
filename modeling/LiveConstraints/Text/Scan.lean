/-!
# Scanning text

A scan takes characters from the front of a text or fails. Alternatives start from the same place,
so a scan that failed has taken nothing. Repetition stops at the first scan that fails or takes
nothing, which is why it always ends.
-/

namespace LiveConstraints

/-- A computation over the text that is left; it may fail. -/
abbrev Scan := StateT (List Char) Option

namespace Scan

/-- Takes a character of a class. -/
def satisfy (p : Char → Bool) : Scan Char := fun
  | c :: rest => if p c then some (c, rest) else none
  | [] => none

/-- Takes a given character. -/
def char (c : Char) : Scan Unit := do let _ ← satisfy (· == c)

/-- Takes the given characters. -/
def chars : List Char → Scan Unit
  | [] => return ()
  | c :: cs => do
    char c
    chars cs

/-- Takes a given text. -/
def text (s : String) : Scan Unit := chars s.toList

/-- Takes the longest run of characters of a class. -/
def takeWhile (p : Char → Bool) : Scan (List Char) := fun cs =>
  some (cs.takeWhile p, cs.dropWhile p)

/-- Takes the longest run of characters of a class, which must not be empty. -/
def takeWhile1 (p : Char → Bool) : Scan (List Char) := do
  let c ← satisfy p
  return c :: (← takeWhile p)

/-- Takes as many characters of a class as given. -/
def exactly (p : Char → Bool) : Nat → Scan (List Char)
  | 0 => return []
  | n + 1 => do
    let c ← satisfy p
    return c :: (← exactly p n)

/-- Succeeds where nothing is left. -/
def atEnd : Scan Unit := fun
  | [] => some ((), [])
  | _ :: _ => none

/-- Repeats a scan from a place for as long as it takes something. -/
def repeatFrom {α : Type} (p : Scan α) (cs : List Char) : List α × List Char :=
  match p cs with
  | none => ([], cs)
  | some (a, rest) =>
    if rest.length < cs.length then
      let (as, last) := repeatFrom p rest
      (a :: as, last)
    else ([], cs)
termination_by cs.length

/-- Repeats a scan for as long as it takes something. -/
def many {α : Type} (p : Scan α) : Scan (List α) := fun cs => some (repeatFrom p cs)

/-- One or more, with a separator between any two. -/
def separated {α : Type} (p : Scan α) (separator : Scan Unit) : Scan (List α) := do
  let a ← p
  return a :: (← many (separator *> p))

/-- Runs a scan on a whole text. -/
def run? {α : Type} (p : Scan α) (s : String) : Option α :=
  ((p <* atEnd) s.toList).map Prod.fst

end Scan

end LiveConstraints
