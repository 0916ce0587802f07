import Mathlib
import PocketCalculator.Text.Line

/-!
# The lines of an input

The lines of an input are its parts between newlines (`map_bytes_ofInput`). What holds of an input
can be shown line by line (`Line.input_induction`): an input is empty, or one line that is not
ended, or a line with its newline and an input behind it.
-/

namespace PocketCalculator

variable {line rest before input : List UInt8}

/-! ### Lines between newlines -/

namespace Line

theorem bne_newline (h : newline ∉ line) : ∀ b ∈ line, (b != newline) = true := by
  rintro b hb
  rw [bne_iff_ne]
  rintro rfl
  exact h hb

theorem first_append_newline (h : newline ∉ line) (rest : List UInt8) :
    first (line ++ newline :: rest) = ⟨dropReturn line, rest⟩ := by
  have htake : (line ++ newline :: rest).takeWhile (· != newline) = line := by
    rw [List.takeWhile_append_of_pos (bne_newline h), List.takeWhile_cons_of_neg (by simp),
      List.append_nil]
  have hdrop : (line ++ newline :: rest).dropWhile (· != newline) = newline :: rest := by
    rw [List.dropWhile_append_of_pos (bne_newline h), List.dropWhile_cons_of_neg (by simp)]
  simp only [first, htake, hdrop]

theorem first_of_notMem (h : newline ∉ line) : first line = ⟨line, []⟩ := by
  have htake : line.takeWhile (· != newline) = line :=
    List.takeWhile_eq_self_iff.mpr (bne_newline h)
  have hdrop : line.dropWhile (· != newline) = [] := List.dropWhile_eq_nil_iff.mpr (bne_newline h)
  simp only [first, htake, hdrop]

theorem ofInput_append_newline (h : newline ∉ line) (rest : List UInt8) :
    ofInput (line ++ newline :: rest) = ⟨dropReturn line, rest⟩ :: ofInput rest := by
  rw [ofInput_of_ne_nil (by simp), first_append_newline h]

theorem ofInput_of_notMem (h : newline ∉ line) (hne : line ≠ []) :
    ofInput line = [⟨line, []⟩] := by
  rw [ofInput_of_ne_nil hne, first_of_notMem h, ofInput_nil]

@[elab_as_elim]
theorem input_induction {motive : List UInt8 → Prop} (nil : motive [])
    (last : ∀ line, newline ∉ line → line ≠ [] → motive line)
    (cons : ∀ line rest, newline ∉ line → motive rest → motive (line ++ newline :: rest))
    (input : List UInt8) : motive input := by
  induction hlength : input.length using Nat.strong_induction_on generalizing input with
  | _ length ih =>
    subst hlength
    by_cases hmem : newline ∈ input
    · obtain ⟨line, rest, rfl, hline⟩ := List.eq_append_cons_of_mem hmem
      have hshorter : rest.length < (line ++ newline :: rest).length := by
        rw [List.length_append, List.length_cons]
        omega
      exact cons line rest hline (ih _ hshorter rest rfl)
    · by_cases hne : input = []
      · rwa [hne]
      · exact last input hmem hne

end Line

/-- The lines of an input: its parts between newlines, without the carriage return before a newline.
Behind the last newline there is no line if nothing stands there. -/
def inputLines (input : List UInt8) : List (List UInt8) :=
  let parts := input.splitOn Line.newline
  parts.dropLast.map Line.dropReturn ++ parts.getLast?.toList.filter (· ≠ [])

theorem inputLines_append_newline (before rest : List UInt8) :
    inputLines (before ++ Line.newline :: rest) =
      (before.splitOn Line.newline).map Line.dropReturn ++ inputLines rest := by
  have hrest := List.splitOn_ne_nil Line.newline rest
  simp only [inputLines, List.splitOn_append_cons_self]
  rw [List.dropLast_append_of_ne_nil hrest, List.getLast?_append_of_ne_nil _ hrest, List.map_append,
    List.append_assoc]

theorem inputLines_of_notMem (h : Line.newline ∉ line) (hne : line ≠ []) :
    inputLines line = [line] := by
  simp [inputLines, List.splitOn_eq_singleton h, hne]

/-- Where an input goes on in a new line, its lines go on. -/
theorem inputLines_append (h : before = [] ∨ before.getLast? = some Line.newline)
    (rest : List UInt8) : inputLines (before ++ rest) = inputLines before ++ inputLines rest := by
  rcases h with rfl | hlast
  · rfl
  · obtain ⟨init, rfl⟩ := List.getLast?_eq_some_iff.mp hlast
    rw [List.append_assoc, List.singleton_append, inputLines_append_newline,
      inputLines_append_newline]
    simp [inputLines]

/-- The lines are those that are read one after the other. -/
theorem map_bytes_ofInput (input : List UInt8) :
    (Line.ofInput input).map Line.bytes = inputLines input := by
  induction input using Line.input_induction with
  | nil =>
    rw [Line.ofInput_nil]
    rfl
  | last line hline hne =>
    rw [Line.ofInput_of_notMem hline hne, inputLines_of_notMem hline hne]
    rfl
  | cons line rest hline ih =>
    rw [Line.ofInput_append_newline hline, inputLines_append_newline,
      List.splitOn_eq_singleton hline, List.map_cons, ih]
    rfl

/-! ### Texts -/

/-- What stands on the lines of an input, as far as it is text. -/
def lineTexts (input : List UInt8) : List (Option String) :=
  (inputLines input).map fun bytes ↦ String.fromUTF8? bytes.toByteArray

theorem map_text?_ofInput (input : List UInt8) :
    (Line.ofInput input).map Line.text? = lineTexts input := by
  rw [lineTexts, ← map_bytes_ofInput, List.map_map]
  rfl

theorem lineTexts_append (h : before = [] ∨ before.getLast? = some Line.newline)
    (rest : List UInt8) : lineTexts (before ++ rest) = lineTexts before ++ lineTexts rest := by
  rw [lineTexts, inputLines_append h, List.map_append]
  rfl

theorem lineTexts_append_newline (h : Line.newline ∉ line) (rest : List UInt8) :
    lineTexts (line ++ Line.newline :: rest) =
      String.fromUTF8? (Line.dropReturn line).toByteArray :: lineTexts rest := by
  rw [lineTexts, inputLines_append_newline, List.splitOn_eq_singleton h]
  rfl

theorem lineTexts_of_notMem (h : Line.newline ∉ line) (hne : line ≠ []) :
    lineTexts line = [String.fromUTF8? line.toByteArray] := by
  rw [lineTexts, inputLines_of_notMem h hne]
  rfl

end PocketCalculator
