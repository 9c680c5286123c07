import NotebookTidy.CellFormat
import NotebookTidy.Proofs.SpacedLines

/-!
# Spaced code

The spacing formatter fails on code with the crash word; any other code it refuses or **tidies**.
`tidy` is what becomes of a piece of code either way, since refused code is kept.  Tidied code is
tidy, is refused exactly if the code was, for the same line (`refusal?_tidy`), and has no new
directives and no crash word.
-/

namespace NotebookTidy
namespace Spacing

open Fragment (Closed)

/-- The line that code is refused for, with its number. -/
def refusal? (code : Text) : Option (Nat × Text) := firstFault? 1 (Text.lines code)

/-- What is made of code that is not refused. -/
def tidied (code : Text) : Text := ofLines (trimLines ((Text.lines code).map spaceLine))

/-- **What becomes of code**: refused code is kept. -/
def tidy (code : Text) : Text := if refusal? code = none then tidied code else code

/-- **The formatter's answer** to code without the crash word. -/
theorem format_eq {code : Text} (h : ¬ crashWord <:+: code) :
    format code = match refusal? code with
      | some (number, line) => .error (.cannotParse (faultMessage number line) (some line))
      | none => .ok (tidied code) := by
  rw [format, if_neg (fun hcontains => h (Text.contains_iff.mp hcontains))]
  rfl

/-! ## Lines and faults -/

theorem firstFault?_eq_none_iff {number : Nat} {lines : List Text} :
    firstFault? number lines = none ↔ ∀ line ∈ lines, isFaulty line = false := by
  induction lines generalizing number with
  | nil => simp [firstFault?]
  | cons line rest ih =>
    by_cases h : isFaulty line = true
    · simp [firstFault?, h]
    · simp [firstFault?, h, ih]

theorem ofLines_cons (line : Text) (lines : List Text) :
    ofLines (line :: lines) = (line ++ ['\n']) ++ ofLines lines := List.flatMap_cons

theorem closed_ofLines (lines : List Text) : Closed (ofLines lines) := by
  induction lines with
  | nil => exact Fragment.closed_nil
  | cons line rest ih =>
    rw [ofLines_cons]
    exact (Fragment.closed_line line).append ih

/-- **Lines put together are cut into these lines**, if none of them could be cut or shortened. -/
theorem lines_ofLines {lines : List Text}
    (h : ∀ line ∈ lines, '\n' ∉ line ∧ '\r' ∉ line.getLast?) :
    Text.lines (ofLines lines) = lines := by
  induction lines with
  | nil => rfl
  | cons line rest ih =>
    obtain ⟨⟨hfeed, hreturn⟩, hrest⟩ := List.forall_mem_cons.mp h
    have hline : Text.lines (line ++ ['\n']) = [line] := by
      rw [Text.lines, Fragment.split_line hfeed, List.map_singleton,
        Text.withoutLineEnd_line hreturn]
    rw [ofLines_cons, Text.lines_append (Fragment.closed_line line), hline, ih hrest,
      List.singleton_append]

theorem infix_of_mem_lines {line t : Text} (h : line ∈ Text.lines t) : line <:+: t := by
  obtain ⟨fragment, hfragment, rfl⟩ := List.mem_map.mp h
  have hwithin : fragment <:+: (Fragment.split t).flatten := List.infix_of_mem_flatten hfragment
  rw [show (Fragment.split t).flatten = t from Fragment.join_split t] at hwithin
  exact (Text.withoutLineEnd_isPrefix fragment).isInfix.trans hwithin

/-- A word without a line feed is in lines put together only if it is in one of them. -/
theorem exists_of_infix_ofLines {lines : List Text} {word : Text} (hne : word ≠ [])
    (hword : '\n' ∉ word) (h : word <:+: ofLines lines) : ∃ line ∈ lines, word <:+: line := by
  induction lines with
  | nil => exact absurd (List.infix_nil.mp h) hne
  | cons line rest ih =>
    rw [ofLines_cons, List.append_assoc] at h
    rcases Text.infix_append_cons h hword with h | h
    · exact ⟨line, List.mem_cons_self, h⟩
    · obtain ⟨line', hline', h⟩ := ih h
      exact ⟨line', List.mem_cons_of_mem _ hline', h⟩

theorem trimLines_eq (lines : List Text) :
    trimLines lines = (lines.dropWhile (· = [])).rdropWhile (· = []) := rfl

theorem mem_of_mem_trimLines {line : Text} {lines : List Text} (h : line ∈ trimLines lines) :
    line ∈ lines := by
  rw [trimLines_eq] at h
  have hend := List.rdropWhile_prefix (· = []) (lines.dropWhile (· = []))
  exact (List.dropWhile_suffix _).subset (hend.subset h)

theorem trimLines_trimLines (lines : List Text) : trimLines (trimLines lines) = trimLines lines := by
  have hstart : (trimLines lines).dropWhile (· = []) = trimLines lines := by
    have hfirst := List.dropWhile_idempotent (fun line : Text => line = []) lines
    rw [trimLines_eq]
    -- the first line that is left is the first that is not empty
    rcases hleft : (lines.dropWhile (· = [])).rdropWhile (· = []) with - | ⟨first, rest⟩
    · rfl
    · obtain ⟨more, hmore⟩ := List.rdropWhile_prefix (· = []) (lines.dropWhile (· = []))
      rw [hleft, List.cons_append] at hmore
      rw [← hmore, List.dropWhile_eq_self_iff] at hfirst
      rw [List.dropWhile_eq_self_iff]
      intro hl
      exact hfirst (Nat.succ_pos _)
  rw [trimLines_eq (trimLines lines), hstart, trimLines_eq, List.rdropWhile_idempotent]

/-! ## Code that is tidied -/

/-- The lines of tidied code are spaced lines of the code. -/
theorem exists_of_mem_lines_tidied {line code : Text}
    (h : line ∈ trimLines ((Text.lines code).map spaceLine)) :
    ∃ line' ∈ Text.lines code, line = spaceLine line' := by
  obtain ⟨line', hline', rfl⟩ := List.mem_map.mp (mem_of_mem_trimLines h)
  exact ⟨line', hline', rfl⟩

theorem lines_tidied (code : Text) :
    Text.lines (tidied code) = trimLines ((Text.lines code).map spaceLine) := by
  refine lines_ofLines fun line hline => ?_
  obtain ⟨line', hline', rfl⟩ := exists_of_mem_lines_tidied hline
  refine ⟨fun hfeed => ?_, fun hreturn => ?_⟩
  · rcases mem_spaceLine hfeed with h | h
    · cases h
    · exact Text.not_mem_lines hline' h
  · rcases last_spaceLine hreturn with h | h
    · cases h
    · cases h

theorem tidied_tidied (code : Text) : tidied (tidied code) = tidied code := by
  have hspaced : (trimLines ((Text.lines code).map spaceLine)).map spaceLine =
      trimLines ((Text.lines code).map spaceLine) := by
    refine (List.map_congr_left fun line hline => ?_).trans (List.map_id _)
    obtain ⟨line', -, rfl⟩ := exists_of_mem_lines_tidied hline
    exact spaceLine_spaceLine line'
  rw [tidied, lines_tidied, hspaced, trimLines_trimLines, ← tidied]

theorem refusal?_tidied {code : Text} (h : refusal? code = none) : refusal? (tidied code) = none := by
  rw [refusal?, firstFault?_eq_none_iff] at h ⊢
  rw [lines_tidied]
  intro line hline
  obtain ⟨line', hline', rfl⟩ := exists_of_mem_lines_tidied hline
  exact isFaulty_spaceLine (h line' hline')

theorem infix_tidied {code : Text} (h : crashWord <:+: tidied code) : crashWord <:+: code := by
  obtain ⟨line, hline, hwithin⟩ := exists_of_infix_ofLines (by decide) (by decide) h
  obtain ⟨line', hline', rfl⟩ := exists_of_mem_lines_tidied hline
  exact (infix_spaceLine hwithin (by decide)).trans (infix_of_mem_lines hline')

/-! ## What becomes of code -/

theorem tidy_of_refused {code : Text} (h : refusal? code ≠ none) : tidy code = code := if_neg h

theorem tidy_of_accepted {code : Text} (h : refusal? code = none) : tidy code = tidied code := if_pos h

/-- **Tidying changes nothing about refusals.** -/
theorem refusal?_tidy (code : Text) : refusal? (tidy code) = refusal? code := by
  by_cases h : refusal? code = none
  · rw [tidy_of_accepted h, refusal?_tidied h, h]
  · rw [tidy_of_refused h]

/-- **Tidy code stays as it is.** -/
theorem tidy_tidy (code : Text) : tidy (tidy code) = tidy code := by
  by_cases h : refusal? code = none
  · rw [tidy_of_accepted h, tidy_of_accepted (refusal?_tidied h), tidied_tidied]
  · rw [tidy_of_refused h, tidy_of_refused h]

theorem closed_tidy {code : Text} (h : Closed code) : Closed (tidy code) := by
  by_cases hrefusal : refusal? code = none
  · rw [tidy_of_accepted hrefusal]
    exact closed_ofLines _
  · rw [tidy_of_refused hrefusal]
    exact h

theorem infix_tidy {code : Text} (h : crashWord <:+: tidy code) : crashWord <:+: code := by
  by_cases hrefusal : refusal? code = none
  · rw [tidy_of_accepted hrefusal] at h
    exact infix_tidied h
  · rw [tidy_of_refused hrefusal] at h
    exact h

end Spacing
end NotebookTidy
