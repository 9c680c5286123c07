import NotebookTidy.Formatter.Spacing
import NotebookTidy.Proofs.CellTraces
import NotebookTidy.Proofs.Notes

/-!
# Checking a notebook says what formatting it does

Formatting goes through all code cells and checking stops at the first that would change, so after
that cell they part: the formatting may note down more, and it may still fail.  Until then they do
the same.  `Concurs` lists what can come of the two with a formatter that answers by a function:
there is nothing to change, both fail at the same cell, or the check stops and the formatting goes
on.

The claim on notebooks (`Notebook.check_concurs`) is read off these three cases.
-/

namespace NotebookTidy

/-- **What comes of formatting cells and of checking them.** -/
inductive Concurs (cells : List Cell) : Formatting → Except FormatterError Bool × Rejections → Prop
    where
  /-- No cell would change. -/
  | settled (notes : Rejections) : Concurs cells ⟨cells, .ok false, notes⟩ (.ok true, notes)
  /-- The formatter fails before any cell has changed. -/
  | failed (error : FormatterError) (notes : Rejections) :
    Concurs cells ⟨cells, .error error, notes⟩ (.error error, notes)
  /-- A cell would change; the formatting goes on, and its result tells of the change unless it is a
  failure. -/
  | parted {formatted : Formatting} {notes : Rejections} (result : formatted.result ≠ .ok false)
    (within : notes.Within formatted.rejections) : Concurs cells formatted (.ok false, notes)

namespace Concurs

/-- A cell that stays as it is makes no difference. -/
theorem cons {cells : List Cell} {formatted : Formatting}
    {checked : Except FormatterError Bool × Rejections} (h : Concurs cells formatted checked)
    (cell : Cell) :
    Concurs (cell :: cells) { formatted with cells := cell :: formatted.cells } checked := by
  cases h with
  | settled notes => exact .settled notes
  | failed error notes => exact .failed error notes
  | parted result within => exact .parted result within

end Concurs

/-- The rest of a formatting after a cell whose fragments stay as they are. -/
theorem after_of_same {cell : CodeCell} {text : Text} (h : Fragment.split text = cell.fragments)
    (rest : Formatting) :
    Formatting.after cell text rest = { rest with cells := .code cell :: rest.cells } := by
  have hcell : Cell.code (cell.setSource text) = .code cell := code_setSource_eq_iff.mpr h
  have hresult : rest.result.map ((cell.setSource text).fragments ≠ cell.fragments || ·) =
      rest.result := by
    have hfragments : (cell.setSource text).fragments = cell.fragments := h
    simp only [hfragments, ne_eq, not_true_eq_false, decide_false, Bool.false_or]
    cases rest.result <;> rfl
  rw [Formatting.after, hcell, hresult]

/-- A formatting in which a cell changes does not tell that none did. -/
theorem after_result_ne {cell : CodeCell} {text : Text} (h : Fragment.split text ≠ cell.fragments)
    (rest : Formatting) : (Formatting.after cell text rest).result ≠ .ok false := by
  have hfragments : (cell.setSource text).fragments ≠ cell.fragments := h
  rw [Formatting.after]
  cases hrest : rest.result with
  | error error => simp [Except.map]
  | ok changed => simp [Except.map, hfragments]

section Cells
variable (answer : Call → Formatted) (mode : Mode)

/-- Formatting cells ends, and adds answers to the notes. -/
theorem yields_formatCells_within (cells : List Cell) {before : Rejections}
    (h : before.Tells answer mode) :
    ∃ formatted, Task.Yields answer (formatCells mode cells before) formatted ∧
      before.Within formatted.rejections := by
  induction cells generalizing before with
  | nil => exact ⟨_, .done _, .refl before⟩
  | cons cell rest ih =>
    cases cell with
    | other members =>
      obtain ⟨formatted, hrest, hwithin⟩ := ih h
      rw [formatCells_other]
      exact ⟨_, .bind hrest (.done _), hwithin⟩
    | code cell =>
      obtain ⟨result, between, hsource, hbetween, hwithin⟩ :=
        adds_formatSource answer mode cell.source before h
      rw [formatCells_code]
      cases result with
      | error error => exact ⟨_, .poll (.bind hsource (.done _)), hwithin⟩
      | ok text =>
        obtain ⟨formatted, hrest, hwithin'⟩ := ih hbetween
        exact ⟨_, .poll (.bind hsource (.bind hrest (.done _))), hwithin.trans hwithin'⟩

/-- **Cells are checked as they are formatted**, up to the first that would change. -/
theorem yields_concurs (cells : List Cell) {before : Rejections} (h : before.Tells answer mode) :
    ∃ formatted checked, Task.Yields answer (formatCells mode cells before) formatted ∧
      Task.Yields answer (checkCells mode cells before) checked ∧
      Concurs cells formatted checked := by
  induction cells generalizing before with
  | nil => exact ⟨_, _, .done _, .done _, .settled before⟩
  | cons cell rest ih =>
    cases cell with
    | other members =>
      obtain ⟨formatted, checked, hformat, hcheck, hconcurs⟩ := ih h
      rw [formatCells_other]
      exact ⟨_, checked, .bind hformat (.done _), hcheck, hconcurs.cons _⟩
    | code cell =>
      obtain ⟨result, between, hsource, hbetween, -⟩ :=
        adds_formatSource answer mode cell.source before h
      rw [formatCells_code, checkCells_code]
      cases result with
      | error error =>
        exact ⟨_, _, .poll (.bind hsource (.done _)), .poll (.bind hsource (.done _)),
          .failed error between⟩
      | ok text =>
        by_cases hsame : Fragment.split text = cell.fragments
        · obtain ⟨formatted, checked, hformat, hcheck, hconcurs⟩ := ih hbetween
          refine ⟨_, checked, .poll (.bind hsource (.bind hformat (.done _))),
            .poll (.bind hsource ?_), ?_⟩
          · simp only [hsame, if_true]
            exact hcheck
          · rw [after_of_same hsame]
            exact hconcurs.cons _
        · -- the check stops here, and only the formatting goes on
          obtain ⟨formatted, hformat, hwithin⟩ :=
            yields_formatCells_within answer mode rest hbetween
          refine ⟨_, (.ok false, between), .poll (.bind hsource (.bind hformat (.done _))),
            .poll (.bind hsource ?_), .parted (after_result_ne hsame formatted) hwithin⟩
          simp only [hsame, if_false]
          exact .done _

end Cells

namespace Notebook

/-- What comes of formatting a notebook and of checking it. -/
theorem yields_format_check (answer : Call → Formatted) (mode : Mode) (n : Notebook) :
    ∃ formatted checked, Concurs n.cells formatted checked ∧
      Task.Yields answer (n.format mode)
        ({ n with cells := formatted.cells }, formatted.result.map (·, formatted.rejections)) ∧
      Task.Yields answer (n.check mode) (checked.1.map (·, checked.2)) := by
  obtain ⟨formatted, checked, hformat, hcheck, hconcurs⟩ :=
    yields_concurs answer mode n.cells Rejections.tells_empty
  refine ⟨formatted, checked, hconcurs, ?_, ?_⟩
  · rw [format_eq]
    exact .bind hformat (.done _)
  · rw [check_eq]
    exact .bind hcheck (.done _)

/-- **Checking and formatting agree** on every notebook, with a formatter whose answers depend on
the request only and while nobody cancels.  What formatting reports, checking denies, with the same
notes if nothing changed and otherwise with some of them; a notebook that is found to be formatted
is left as it is; a failure of the check is one of the formatting; and a failure of the formatting
is one of the check, unless the check has stopped before. -/
theorem check_concurs {formatter : Formatter} (hsteady : formatter.Steady) (mode : Mode)
    (n : Notebook) {w u : World} (hw : w.cancelled = false) (hu : u.cancelled = false) :
    let formatted := ((n.format mode).run formatter w).1
    let checked := ((n.check mode).run formatter u).1
    (∀ changed notes, formatted.2 = .ok (changed, notes) →
      ∃ notes', checked = .ok (!changed, notes') ∧ (changed = false → notes' = notes) ∧
        ∀ code message, notes'.get? code = some message → notes.get? code = some message) ∧
    (∀ notes, checked = .ok (true, notes) → formatted = (n, .ok (false, notes))) ∧
    (∀ error, checked = .error error → formatted.2 = .error error) ∧
    (∀ error, formatted.2 = .error error →
      checked = .error error ∨ ∃ notes, checked = .ok (false, notes)) := by
  obtain ⟨answer, rfl⟩ := hsteady
  obtain ⟨⟨cells, result, notes⟩, checked, hconcurs, hformat, hcheck⟩ :=
    yields_format_check answer mode n
  intro formatted verdict
  have hformatted : formatted = _ := hformat.result_eq hw
  have hverdict : verdict = _ := hcheck.result_eq hu
  rw [hformatted, hverdict]
  cases hconcurs with
  | settled =>
    refine ⟨?_, ?_, ?_, ?_⟩
    · rintro changed notes' ⟨⟩
      exact ⟨notes, rfl, fun _ => rfl, fun _ _ hnote => hnote⟩
    · rintro notes' ⟨⟩
      rfl
    · rintro error ⟨⟩
    · rintro error ⟨⟩
  | failed error =>
    refine ⟨?_, ?_, ?_, ?_⟩
    · rintro changed notes' ⟨⟩
    · rintro notes' ⟨⟩
    · rintro error' ⟨⟩
      rfl
    · rintro error' ⟨⟩
      exact Or.inl rfl
  | parted hresult hwithin =>
    refine ⟨?_, ?_, ?_, ?_⟩
    · intro changed notes' hreport
      cases result with
      | error error => cases hreport
      | ok changed' =>
        cases hreport
        cases changed with
        | false => exact absurd rfl hresult
        | true => exact ⟨_, rfl, nofun, hwithin⟩
    · rintro notes' ⟨⟩
    · rintro error ⟨⟩
    · intro error hreport
      exact Or.inr ⟨_, rfl⟩

/-- A notebook with a line between two that are no code. -/
def threeCells (line : Text) : Notebook :=
  ⟨[], ["f(:\n".toList, line, "g(:\n".toList].map fun line =>
    .code ⟨[(kindKey, .string codeKind)], .lines, [line], []⟩, [], .compact⟩

/-- With a line to be spaced between the two, formatting notes down both of these and the check the
first. -/
theorem check_of_three :
    ∃ notes notes', Spacing.formatter.Steady ∧
      (((threeCells "x=1".toList).format .standard).run Spacing.formatter (.start ⟨[], []⟩)).1 =
        (threeCells "x = 1\n".toList, .ok (true, notes)) ∧
      notes.entries = [("f(:\n".toList, "Cannot parse: 1:0: f(:".toList),
        ("g(:\n".toList, "Cannot parse: 1:0: g(:".toList)] ∧
      (((threeCells "x=1".toList).check .standard).run Spacing.formatter (.start ⟨[], []⟩)).1 =
        .ok (false, notes') ∧
      notes'.entries = [("f(:\n".toList, "Cannot parse: 1:0: f(:".toList)] ∧
      ∀ code message, notes'.get? code = some message → notes.get? code = some message := by
  have hsteady : Spacing.formatter.Steady := ⟨_, rfl⟩
  obtain ⟨hformatted, -, -, -⟩ := check_concurs hsteady .standard (threeCells "x=1".toList)
    (w := .start ⟨[], []⟩) (u := .start ⟨[], []⟩) rfl rfl
  obtain ⟨notes, hformat, hentries⟩ : ∃ notes,
      (((threeCells "x=1".toList).format .standard).run Spacing.formatter (.start ⟨[], []⟩)).1 =
        (threeCells "x = 1\n".toList, .ok (true, notes)) ∧
      notes.entries = [("f(:\n".toList, "Cannot parse: 1:0: f(:".toList),
        ("g(:\n".toList, "Cannot parse: 1:0: g(:".toList)] := ⟨_, rfl, rfl⟩
  obtain ⟨notes', hcheck, -, hnotes⟩ := hformatted true notes (congrArg Prod.snd hformat)
  refine ⟨notes, notes', hsteady, hformat, hentries, hcheck, ?_, hnotes⟩
  have hresult : Except.ok (false, notes') = _ := hcheck.symm
  cases hresult
  rfl

end Notebook
end NotebookTidy
