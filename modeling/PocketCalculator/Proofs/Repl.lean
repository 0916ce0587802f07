import PocketCalculator.CommandLine.Run
import PocketCalculator.Proofs.Line
import PocketCalculator.Proofs.ReadoutForm

/-!
# Expressions line by line

Each line of an input that is not blank is answered as the same text is answered as an argument, up
to a line that is no text, and only such a line makes the exit code an error. A line adds its answer
between the answers of the lines before it and of those behind it, whether it has a value or not
(`outcome_repl`).
-/

namespace PocketCalculator

variable {input : List UInt8}

/-! ### Texts up to a line that is no text -/

/-- The texts that are not blank, up to a line that is no text. -/
def typedTexts (texts : List (Option String)) : List String :=
  (texts.takeWhile Option.isSome).reduceOption.filter fun text ↦ !isBlankLine text

theorem expressionsOn_eq (lines : List Line) :
    expressionsOn lines =
      (typedTexts (lines.map Line.text?), (lines.map Line.text?).all Option.isSome) := by
  induction lines with
  | nil => rfl
  | cons line lines ih =>
    rw [expressionsOn, ih]
    cases hline : line.text? with
    | none =>
      simp [typedTexts, hline]
    | some text =>
      by_cases hblank : isBlankLine text <;>
        simp [typedTexts, hline, hblank, List.reduceOption]

theorem typedTexts_append {texts : List (Option String)} (h : texts.all Option.isSome)
    (more : List (Option String)) :
    typedTexts (texts ++ more) = typedTexts texts ++ typedTexts more := by
  have hall := List.all_eq_true.mp h
  rw [typedTexts, typedTexts, typedTexts, List.takeWhile_append_of_pos hall,
    List.takeWhile_eq_self_iff.mpr hall, List.reduceOption_append, List.filter_append]

theorem typedTexts_cons (text : String) (more : List (Option String)) :
    typedTexts (some text :: more) =
      (if isBlankLine text then [] else [text]) ++ typedTexts more := by
  by_cases hblank : isBlankLine text <;> simp [typedTexts, hblank, List.reduceOption]

/-! ### Answers -/

/-- What is shown for an expression is one line. -/
theorem newline_notMem_shownText (expression : String) :
    '\n' ∉ (shownText expression).toList := by
  cases hshown : Readout.ofExpression expression with
  | error e =>
    rw [shownText, hshown]
    cases e <;> decide
  | ok r =>
    obtain ⟨negative, numeral, htext, hform⟩ := Readout.exists_hasForm hshown
    have hnumeral : '\n' ∉ numeral := fun hmem ↦
      absurd (hform.isNumeral.isSeparator_eq_false _ hmem) (by decide)
    rw [shownText_of_ofExpression hshown, htext, String.toList_ofList]
    cases negative <;> simpa using hnumeral

theorem outputText_eval (text : String) :
    (program ["eval", "--", text] []).outputText = shownText (readKeys text) ++ "\n" := by
  have harguments : Invocation.ofArguments ["eval", "--", text] = .ok ⟨.eval text false, 0⟩ := rfl
  rw [program, harguments]
  simp [Command.run, Command.runEval, Outcome.outputText]

theorem program_repl (input : List UInt8) :
    (program ["repl"] input).outputText =
        String.join ((typedTexts (lineTexts input)).map fun text ↦
          shownText (readKeys text) ++ "\n") ∧
      (program ["repl"] input).exitCode =
        if (lineTexts input).all Option.isSome then 0 else 1 := by
  have harguments : Invocation.ofArguments ["repl"] = .ok ⟨.repl, 0⟩ := rfl
  rw [program, harguments]
  simp only [Command.run, Command.runRepl, expressionsOn_eq, map_text?_ofInput]
  cases (lineTexts input).all Option.isSome with
  | false => exact ⟨congrArg String.join List.map_map, rfl⟩
  | true => exact ⟨congrArg String.join List.map_map, rfl⟩

theorem all_isSome_of_exitCode (h : (program ["repl"] input).exitCode = 0) :
    (lineTexts input).all Option.isSome := by
  by_contra hall
  rw [(program_repl input).2, if_neg hall] at h
  exact absurd h (by decide)

/-- Each line is answered as it is answered as an argument, by one line of output, until a line is
no text. The exit code depends on that line alone, and any other line only adds its own answer. -/
theorem outcome_repl (input : List UInt8) :
    (program ["repl"] input).outputText =
        String.join ((typedTexts (lineTexts input)).map fun text ↦
          (program ["eval", "--", text] []).outputText) ∧
      (program ["repl"] input).exitCode =
        (if (lineTexts input).all Option.isSome then 0 else 1) ∧
      (∀ text, (program ["eval", "--", text] []).outputText = shownText (readKeys text) ++ "\n" ∧
        '\n' ∉ (shownText (readKeys text)).toList) ∧
      ∀ before line after text, (before = [] ∨ before.getLast? = some Line.newline) →
        Line.newline ∉ line → String.fromUTF8? (Line.dropReturn line).toByteArray = some text →
          (program ["repl"] (before ++ line ++ Line.newline :: after)).exitCode =
              (program ["repl"] (before ++ after)).exitCode ∧
            ((program ["repl"] before).exitCode = 0 →
              (program ["repl"] (before ++ line ++ Line.newline :: after)).outputText =
                (program ["repl"] before).outputText ++
                  (if isBlankLine text then "" else shownText (readKeys text) ++ "\n") ++
                    (program ["repl"] after).outputText) := by
  refine ⟨?_, (program_repl input).2, fun text ↦ ⟨outputText_eval text, ?_⟩, ?_⟩
  · simp only [(program_repl input).1, outputText_eval]
  · exact newline_notMem_shownText _
  · intro before line after text hbefore hline htext
    have hlines : lineTexts (before ++ line ++ Line.newline :: after) =
        lineTexts before ++ some text :: lineTexts after := by
      rw [List.append_assoc, lineTexts_append hbefore, lineTexts_append_newline hline, htext]
    constructor
    · rw [(program_repl _).2, (program_repl _).2, hlines, lineTexts_append hbefore]
      simp
    · intro hcode
      have htexts := all_isSome_of_exitCode hcode
      rw [(program_repl _).1, hlines, typedTexts_append htexts, typedTexts_cons, List.map_append,
        List.map_append, String.join_append, String.join_append, ← (program_repl before).1,
        ← (program_repl after).1, String.append_assoc]
      by_cases hblank : isBlankLine text <;> simp [hblank]

/-- The line `2 × 3` between a division by zero and a byte that is no text. -/
theorem outcome_repl_after_failure :
    let before := "1 / 0\n".toUTF8.data.toList
    let line := "2 × 3\r".toUTF8.data.toList
    (before = [] ∨ before.getLast? = some Line.newline) ∧ Line.newline ∉ line ∧
      String.fromUTF8? (Line.dropReturn line).toByteArray = some "2 × 3" ∧
      (program ["repl"] before).exitCode = 0 ∧
      (program ["repl"] (before ++ line ++ Line.newline :: [255])).exitCode =
        (program ["repl"] (before ++ [255])).exitCode ∧
      (program ["repl"] (before ++ line ++ Line.newline :: [255])).outputText =
        (program ["repl"] before).outputText ++
          (if isBlankLine "2 × 3" then "" else shownText (readKeys "2 × 3") ++ "\n") ++
            (program ["repl"] [255]).outputText := by
  intro before line
  have hbefore : before = [] ∨ before.getLast? = some Line.newline := by decide +kernel
  have hline : Line.newline ∉ line := by decide +kernel
  have htext : String.fromUTF8? (Line.dropReturn line).toByteArray = some "2 × 3" := by
    decide +kernel
  have hcode : (program ["repl"] before).exitCode = 0 := by decide +kernel
  obtain ⟨hexit, houtput⟩ := (outcome_repl []).2.2.2 before line [255] _ hbefore hline htext
  exact ⟨hbefore, hline, htext, hcode, hexit, houtput hcode⟩

end PocketCalculator
