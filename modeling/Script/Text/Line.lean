import Script.Text.Blank
import Script.Text.Backspace

/-!
# Lines

An input is cut into lines at its line feeds. A carriage return before the line feed belongs to the
line end. Then the backspaces in each line are applied.
-/

namespace Script

/-- Drops one carriage return from the end. -/
def dropReturn (line : List Char) : List Char :=
  if line.getLast? = some '\r' then line.dropLast else line

/-- The lines of an input, without their ends. The last one may lack its line feed. -/
def lines (input : List Char) : List (List Char) :=
  match _rest : input.dropWhile (· ≠ '\n') with
  | [] => if input.isEmpty then [] else [input]
  | _ :: rest => dropReturn (input.takeWhile (· ≠ '\n')) :: lines rest
termination_by input.length
decreasing_by
  have le := (List.dropWhile_sublist (l := input) (· ≠ '\n')).length_le
  rw [_rest, List.length_cons] at le
  omega

/-- The lines that have anything on them once their backspaces are applied. A torn line stays, without
text. -/
def filledLines (input : List Char) : List (Option (List Char)) :=
  ((lines input).map applyBackspaces?).filter fun line => !line.any isBlankLine

end Script
