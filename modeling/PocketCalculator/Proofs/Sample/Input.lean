import PocketCalculator.Proofs.Line
import PocketCalculator.Proofs.Sequencing
import PocketCalculator.Sample.Input

/-!
# Where reading a sample ends

A line is deciding if it is no text, if it is blank, or if one of its words is no number. Reading
takes the numbers of the lines before the first deciding line, and that line alone settles how it
ends (`Sample.read_firstDeciding`). What stands behind it is left unread and has no influence.
-/

namespace PocketCalculator

/-! ### The first line -/

variable {before line rest tail input : List UInt8} {earlier later : List (Option String)}
  {text : Option String}

theorem getLast?_append_newline (line rest : List UInt8) :
    (line ++ Line.newline :: rest).getLast? = some Line.newline ↔
      rest = [] ∨ rest.getLast? = some Line.newline := by
  cases rest with
  | nil => simp
  | cons b rest => simp

/-- Behind the first line stands what follows its newline, and nothing if it has none. -/
theorem exists_firstLine (h : lineTexts input = text :: later) :
    ∃ front behind, input = front ++ behind ∧ lineTexts front = [text] ∧
      (behind = [] ∨ front.getLast? = some Line.newline) ∧
      ∀ tail, (tail = [] ∨ front.getLast? = some Line.newline) →
        ∃ l ls, Line.ofInput (front ++ tail) = l :: ls ∧ l.text? = text ∧ l.rest = tail := by
  induction input using Line.input_induction with
  | nil => cases h
  | last line hline hne =>
    rw [lineTexts_of_notMem hline hne] at h
    obtain ⟨rfl, -⟩ := List.cons_eq_cons.mp h
    refine ⟨line, [], (List.append_nil line).symm, lineTexts_of_notMem hline hne, .inl rfl, ?_⟩
    -- A line that is not ended is the last one: only nothing can stand behind it.
    rintro tail (rfl | hlast)
    · rw [List.append_nil]
      exact ⟨⟨line, []⟩, [], Line.ofInput_of_notMem hline hne, rfl, rfl⟩
    · exact absurd (List.mem_of_getLast? hlast) hline
  | cons line rest hline ih =>
    rw [lineTexts_append_newline hline] at h
    obtain ⟨rfl, -⟩ := List.cons_eq_cons.mp h
    refine ⟨line ++ [Line.newline], rest, by simp, lineTexts_append_newline hline [],
      .inr (by simp), ?_⟩
    rintro tail -
    refine ⟨⟨Line.dropReturn line, tail⟩, Line.ofInput tail, ?_, rfl, rfl⟩
    rw [List.append_assoc]
    exact Line.ofInput_append_newline hline tail

/-- The lines before a line end with a newline. -/
theorem exists_linesBefore (h : lineTexts input = earlier ++ text :: later) :
    ∃ before rest, input = before ++ rest ∧ lineTexts before = earlier ∧
      lineTexts rest = text :: later ∧ (before = [] ∨ before.getLast? = some Line.newline) := by
  induction input using Line.input_induction generalizing earlier with
  | nil =>
    cases earlier <;> cases h
  | last line hline hne =>
    rw [lineTexts_of_notMem hline hne] at h
    cases earlier with
    | nil => exact ⟨[], line, rfl, rfl, (lineTexts_of_notMem hline hne).trans h, .inl rfl⟩
    | cons t earlier => simp at h
  | cons line rest hline ih =>
    cases earlier with
    | nil => exact ⟨[], _, rfl, rfl, h, .inl rfl⟩
    | cons t earlier =>
      rw [lineTexts_append_newline hline] at h
      obtain ⟨rfl, hrest⟩ := List.cons_eq_cons.mp h
      obtain ⟨before, behind, rfl, hbefore, hbehind, hended⟩ := ih hrest
      refine ⟨line ++ Line.newline :: before, behind, by simp, ?_, hbehind,
        .inr ((getLast?_append_newline line before).mpr hended)⟩
      rw [lineTexts_append_newline hline, hbefore]

namespace Sample

/-- Whether reading ends at a line with the given text. -/
def IsDeciding : Option String → Prop
  | none => True
  | some text => isBlankLine text ∨ ∃ word ∈ words text, readFloat? word = none

instance : DecidablePred IsDeciding
  | none => .isTrue trivial
  | some _ => inferInstanceAs (Decidable (_ ∨ _))

/-- The numbers on a line, as far as its words are numbers. -/
def lineNumbers : Option String → List Float
  | none => []
  | some text => (words text).filterMap readFloat?

/-! ### One line -/

variable {l : Line} {ls : List Line} {s word : String} {fine more : List String}

theorem readWord_eq {number : Float} (h : readFloat? word = some number) :
    readWord word = .ok number := by
  rw [readWord, h]

theorem mapM_readWord (h : ∀ w ∈ fine, readFloat? w ≠ none) :
    fine.mapM readWord = .ok (fine.filterMap readFloat?) := by
  induction fine with
  | nil => rfl
  | cons w fine ih =>
    obtain ⟨hw, hrest⟩ := List.forall_mem_cons.mp h
    obtain ⟨number, hnumber⟩ := Option.ne_none_iff_exists'.mp hw
    rw [List.mapM_cons, readWord_eq hnumber, ih hrest, List.filterMap_cons_some hnumber]
    rfl

theorem mapM_readWord_of_first (h : ∀ w ∈ fine, readFloat? w ≠ none)
    (hword : readFloat? word = none) :
    (fine ++ word :: more).mapM readWord = .error (.notANumber word) := by
  have hfirst : readWord word = .error (.notANumber word) := by
    rw [readWord, hword]
  rw [List.mapM_append, mapM_readWord h, List.mapM_cons, hfirst]
  rfl

theorem words_of_isBlankLine (h : isBlankLine s) : words s = [] := by
  rw [words, List.map_eq_nil_iff, List.filter_eq_nil_iff]
  intro run hrun hshown
  obtain ⟨c, hc⟩ := List.exists_mem_of_ne_nil run (List.ne_nil_of_mem_splitBy hrun)
  have hmem : c ∈ s.toList := by
    rw [← List.flatten_splitBy (fun a b ↦ isBlank a == isBlank b) s.toList]
    exact List.mem_flatten_of_mem hrun hc
  have hblank := List.all_eq_true.mp h c hmem
  simp only [Bool.not_eq_true', List.any_eq_false] at hshown
  exact hshown c hc hblank

theorem readLines_of_undecodable (h : l.text? = none) :
    readLines (l :: ls) = .error .undecodable := by
  rw [readLines, h]

theorem readLines_of_blank (h : l.text? = some s) (hblank : isBlankLine s) :
    readLines (l :: ls) = .ok ([], l.rest) := by
  rw [readLines, h]
  exact if_pos hblank

/-- A word that is no number ends the reading, and no later word is looked at. -/
theorem readLines_of_first (h : l.text? = some s) (hwords : words s = fine ++ word :: more)
    (hfine : ∀ w ∈ fine, readFloat? w ≠ none) (hword : readFloat? word = none) :
    readLines (l :: ls) = .error (.notANumber word) := by
  have hblank : ¬ isBlankLine s := by
    intro hblank
    rw [words_of_isBlankLine hblank] at hwords
    simp at hwords
  rw [readLines, h]
  simp only [if_neg hblank, readLine, hwords, mapM_readWord_of_first hfine hword]
  rfl

theorem readLines_of_not_isDeciding (h : ¬ IsDeciding l.text?) :
    readLines (l :: ls) =
      (readLines ls).map fun r ↦ (lineNumbers l.text? ++ r.1, r.2) := by
  cases htext : l.text? with
  | none =>
    rw [htext] at h
    exact absurd trivial h
  | some s =>
    rw [htext] at h
    obtain ⟨hblank, hnumbers⟩ := not_or.mp h
    have hwords : ∀ w ∈ words s, readFloat? w ≠ none := fun w hw hnone ↦ hnumbers ⟨w, hw, hnone⟩
    rw [readLines, htext]
    simp only [if_neg hblank, readLine, mapM_readWord hwords, Except.ok_bind, lineNumbers]
    cases readLines ls <;> rfl

theorem exists_first_of_isDeciding (h : IsDeciding (some s)) (hblank : ¬ isBlankLine s) :
    ∃ fine word more, words s = fine ++ word :: more ∧ (∀ w ∈ fine, readFloat? w ≠ none) ∧
      readFloat? word = none := by
  obtain ⟨bad, hbad, hnone⟩ := h.resolve_left hblank
  have hfound : ((words s).find? fun w ↦ (readFloat? w).isNone).isSome :=
    List.find?_isSome.mpr ⟨bad, hbad, Option.isNone_iff_eq_none.mpr hnone⟩
  obtain ⟨word, hword⟩ := Option.isSome_iff_exists.mp hfound
  obtain ⟨hfirst, fine, more, hwords, hfine⟩ := List.find?_eq_some_iff_append.mp hword
  refine ⟨fine, word, more, hwords, ?_, Option.isNone_iff_eq_none.mp hfirst⟩
  intro w hw hnone
  have hshown := hfine w hw
  rw [hnone] at hshown
  cases hshown

/-! ### Lines of numbers -/

theorem read_append_newline (hline : Line.newline ∉ line)
    (h : ¬ IsDeciding (String.fromUTF8? (Line.dropReturn line).toByteArray)) (rest : List UInt8) :
    read (line ++ Line.newline :: rest) = (read rest).map fun r ↦
      (lineNumbers (String.fromUTF8? (Line.dropReturn line).toByteArray) ++ r.1, r.2) := by
  rw [read, Line.ofInput_append_newline hline]
  exact readLines_of_not_isDeciding h

/-- Reading goes on behind lines of numbers that are ended. -/
theorem read_append (hended : before = [] ∨ before.getLast? = some Line.newline)
    (hnumbers : ∀ t ∈ lineTexts before, ¬ IsDeciding t) (rest : List UInt8) :
    read (before ++ rest) =
      (read rest).map fun r ↦ ((lineTexts before).flatMap lineNumbers ++ r.1, r.2) := by
  induction before using Line.input_induction with
  | nil => cases h : read rest <;> simp [h, lineTexts, inputLines, Except.map]
  | last line hline hne =>
    rcases hended with rfl | hlast
    · exact absurd rfl hne
    · exact absurd (List.mem_of_getLast? hlast) hline
  | cons line before hline ih =>
    rw [lineTexts_append_newline hline] at hnumbers ⊢
    obtain ⟨hfirst, hmore⟩ := List.forall_mem_cons.mp hnumbers
    have hbefore := (getLast?_append_newline line before).mp (hended.resolve_left (by simp))
    rw [List.append_assoc, List.cons_append, read_append_newline hline hfirst, ih hbefore hmore,
      List.flatMap_cons]
    cases read rest with
    | error e => rfl
    | ok r => simp [Except.map]

theorem read_of_forall_not_isDeciding (h : ∀ t ∈ lineTexts input, ¬ IsDeciding t) :
    read input = .ok ((lineTexts input).flatMap lineNumbers, []) := by
  induction input using Line.input_induction with
  | nil =>
    rw [read, Line.ofInput_nil]
    rfl
  | last line hline hne =>
    rw [lineTexts_of_notMem hline hne] at h ⊢
    rw [read, Line.ofInput_of_notMem hline hne]
    rw [readLines_of_not_isDeciding (h _ (List.mem_singleton_self _))]
    simp [readLines, Except.map, Line.text?]
  | cons line rest hline ih =>
    rw [lineTexts_append_newline hline] at h ⊢
    obtain ⟨hfirst, hmore⟩ := List.forall_mem_cons.mp h
    rw [read_append_newline hline hfirst, ih hmore, List.flatMap_cons]
    rfl

/-- The first deciding line settles how reading ends, whatever follows it: at a line that is no text
with an error, at a blank line with the numbers of the lines before and all that follows unread, and
otherwise with an error that names the first word on the line that is no number. Without a deciding
line all numbers are read and nothing is left. -/
theorem read_firstDeciding (input : List UInt8) :
    ((∀ t ∈ lineTexts input, ¬ IsDeciding t) →
      read input = .ok ((lineTexts input).flatMap lineNumbers, [])) ∧
    ∀ earlier text later, lineTexts input = earlier ++ text :: later →
      (∀ t ∈ earlier, ¬ IsDeciding t) → IsDeciding text →
        ∃ consumed rest, input = consumed ++ rest ∧ lineTexts consumed = earlier ++ [text] ∧
          (rest = [] ∨ consumed.getLast? = some Line.newline) ∧
          ∀ tail, (tail = [] ∨ consumed.getLast? = some Line.newline) →
            (text = none → read (consumed ++ tail) = .error .undecodable) ∧
            (∀ s, text = some s → isBlankLine s →
              read (consumed ++ tail) = .ok (earlier.flatMap lineNumbers, tail)) ∧
            ∀ s, text = some s → ¬ isBlankLine s →
              ∃ fine word more, words s = fine ++ word :: more ∧
                (∀ w ∈ fine, readFloat? w ≠ none) ∧ readFloat? word = none ∧
                read (consumed ++ tail) = .error (.notANumber word) := by
  refine ⟨read_of_forall_not_isDeciding, ?_⟩
  intro earlier text later hlines hearlier hdeciding
  obtain ⟨before, rest, rfl, rfl, hrest, hended⟩ := exists_linesBefore hlines
  obtain ⟨front, behind, rfl, hfront, hbehind, hline⟩ := exists_firstLine hrest
  have hne : front ≠ [] := by
    rintro rfl
    cases hfront
  have hlast : (before ++ front).getLast? = front.getLast? :=
    List.getLast?_append_of_ne_nil before hne
  refine ⟨before ++ front, behind, by simp, by rw [lineTexts_append hended, hfront], ?_, ?_⟩
  · rwa [hlast]
  · rw [hlast]
    intro tail htail
    obtain ⟨l, ls, hlines, htext, hafter⟩ := hline tail htail
    rw [List.append_assoc, read_append hended hearlier, read, hlines]
    refine ⟨?_, ?_, ?_⟩
    · intro hnone
      rw [readLines_of_undecodable (htext.trans hnone)]
      rfl
    · intro s hs hblank
      rw [readLines_of_blank (htext.trans hs) hblank, hafter]
      simp [Except.map]
    · rintro s rfl hblank
      obtain ⟨fine, word, more, hwords, hfine, hword⟩ :=
        exists_first_of_isDeciding hdeciding hblank
      refine ⟨fine, word, more, hwords, hfine, hword, ?_⟩
      rw [readLines_of_first htext hwords hfine hword]
      rfl

/-- A line with a carriage return, a line of an em space, and a byte that is no text behind it. -/
theorem read_line_before_blank :
    let input := "1 2.5\r\n\u2003\n4 ".toUTF8.data.toList ++ [255]
    lineTexts input = [some "1 2.5"] ++ some "\u2003" :: [none] ∧
      (∀ t ∈ [some "1 2.5"], ¬ IsDeciding t) ∧ IsDeciding (some "\u2003") ∧
      ∃ consumed rest, input = consumed ++ rest ∧
        lineTexts consumed = [some "1 2.5"] ++ [some "\u2003"] ∧
        read input = .ok ([1, 2.5], rest) := by
  intro input
  have hlines : lineTexts input = [some "1 2.5"] ++ some "\u2003" :: [none] := by decide +kernel
  have hearlier : ∀ t ∈ [some "1 2.5"], ¬ IsDeciding t := by decide +kernel
  have hdeciding : IsDeciding (some "\u2003") := by decide +kernel
  obtain ⟨consumed, rest, hinput, hconsumed, hrest, hread⟩ :=
    (read_firstDeciding input).2 _ _ _ hlines hearlier hdeciding
  have hnumbers : [some "1 2.5"].flatMap lineNumbers = [1, 2.5] := by decide +kernel
  refine ⟨hlines, hearlier, hdeciding, consumed, rest, hinput, hconsumed, ?_⟩
  rw [hinput, (hread rest hrest).2.1 _ rfl (by decide +kernel), hnumbers]

end Sample

end PocketCalculator
