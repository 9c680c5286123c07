import Mathlib.Data.List.Forall2
import NotebookTidy.Proofs.CellTraces

/-!
# A formatting rewrites a prefix of the code cells

However a formatting of a notebook ends, there is a place among the code cells up to which each has
the fragments of the text that it was formatted to, while all from there on have the fragments that
they had; and fragments are all that has changed in the notebook (`Notebook.PrefixRewritten`).  If
the formatting succeeds that place is the end; if it fails it is the cell at which it failed, or
before which it found the run cancelled (`Notebook.format_rewrites_prefix`).
-/

namespace NotebookTidy

namespace Cell

/-- **The same cell but for the fragments of its source.** -/
inductive SameAround : Cell → Cell → Prop where
  | code (cell : CodeCell) (fragments : List Text) :
    SameAround (.code cell) (.code { cell with fragments })
  | other (members : Members) : SameAround (.other members) (.other members)

theorem SameAround.refl (cell : Cell) : SameAround cell cell := by
  cases cell with
  | code cell => exact .code cell cell.fragments
  | other members => exact .other members

theorem sameAround_setSources (texts : List Text) (cells : List Cell) :
    List.Forall₂ SameAround cells (setSources texts cells) := by
  induction cells generalizing texts with
  | nil => cases texts <;> exact .nil
  | cons cell rest ih =>
    cases texts with
    | nil => exact List.forall₂_same.mpr fun cell _ => .refl cell
    | cons text texts =>
      cases cell with
      | code cell => exact .cons (.code cell (Fragment.split text)) (ih texts)
      | other members => exact .cons (.other members) (ih (text :: texts))

/-- Cells that are the same but for their fragments are the same if the fragments are. -/
theorem eq_iff_of_sameAround {cells cells' : List Cell} (h : List.Forall₂ SameAround cells cells') :
    cells' = cells ↔ (cells'.filterMap asCode?).map CodeCell.fragments =
      (cells.filterMap asCode?).map CodeCell.fragments := by
  induction h with
  | nil => exact iff_of_true rfl rfl
  | @cons cell cell' rest rest' hcell hrest ih =>
    cases hcell with
    | other members =>
      have hskip (cells : List Cell) :
          (other members :: cells).filterMap asCode? = cells.filterMap asCode? := rfl
      rw [hskip, hskip, List.cons.injEq, eq_self, true_and]
      exact ih
    | code cell fragments =>
      obtain ⟨before, shape, fragments', after⟩ := cell
      simp [asCode?, ih]

/-- The first code cells have the fragments of the texts, and the others those that they had. -/
theorem fragments_setSources {texts : List Text} {cells : List Cell}
    {formatted left : List CodeCell} (hcode : cells.filterMap asCode? = formatted ++ left)
    (hlength : texts.length = formatted.length) :
    ((setSources texts cells).filterMap asCode?).map CodeCell.fragments =
      texts.map Fragment.split ++ left.map CodeCell.fragments := by
  induction cells generalizing texts formatted with
  | nil =>
    obtain ⟨rfl, rfl⟩ := List.append_eq_nil_iff.mp hcode.symm
    rw [List.eq_nil_of_length_eq_zero hlength]
    rfl
  | cons cell rest ih =>
    cases cell with
    | other members =>
      rw [setSources_other]
      exact ih hcode hlength
    | code cell =>
      cases texts with
      | nil =>
        rw [List.eq_nil_of_length_eq_zero hlength.symm] at hcode
        rw [setSources, hcode]
        rfl
      | cons text texts =>
        obtain ⟨first, formatted, rfl⟩ := List.exists_cons_of_length_eq_add_one hlength.symm
        obtain ⟨rfl, hrest⟩ := List.cons.inj hcode
        exact congrArg (Fragment.split text :: ·) (ih hrest (Nat.succ.inj hlength))

end Cell

namespace Notebook

/-- **A prefix of the code cells has been formatted**, so many of them, by the events and to the
texts given; and nothing else is different. -/
structure PrefixRewritten (mode : Mode) (n n' : Notebook) (count : Nat) (es : List Event)
    (texts : List Text) (notes : Rejections) : Prop where
  /-- There are so many code cells. -/
  bound : count ≤ n.codeCells.length
  /-- Each of the first has been formatted to its text. -/
  formatted : Reformats mode (n.codeCells.take count) .empty es texts notes
  /-- They have its fragments now, and the others have their own. -/
  fragments : n'.codeCells.map CodeCell.fragments =
    texts.map Fragment.split ++ (n.codeCells.drop count).map CodeCell.fragments
  /-- Cells stay in their order and are the same but for these fragments. -/
  cells : List.Forall₂ Cell.SameAround n.cells n'.cells
  /-- What is around the cells is the same, and so is the layout. -/
  around : n' = { n with cells := n'.cells }

/-- **A formatting rewrites a prefix and nothing else**, whatever the formatter answers and whenever
the run is cancelled.  If it succeeds it has rewritten all code cells, and it tells of a change
exactly if one of them has other fragments than before; if it fails, then because it was cancelled
before the first code cell that it has not rewritten, or because this one cannot be formatted. -/
theorem format_rewrites_prefix {formatter : Formatter} {mode : Mode} {n n' : Notebook}
    {w w' : World} {result : Except FormatterError (Bool × Rejections)}
    (h : Task.Steps formatter (n.format mode, w) (.done (n', result), w')) :
    ∃ count es fs texts notes, World.Follows formatter w (es ++ fs) w' ∧
      PrefixRewritten mode n n' count es texts notes ∧
      (∀ changed rejections, result = .ok (changed, rejections) →
        count = n.codeCells.length ∧ fs = [] ∧ rejections = notes ∧
          (changed = true ↔
            n'.codeCells.map CodeCell.fragments ≠ n.codeCells.map CodeCell.fragments)) ∧
      ∀ error, result = .error error →
        ∃ cell, n.codeCells[count]? = some cell ∧ StopsAt mode cell notes fs error := by
  obtain ⟨es, htrace, hfollows⟩ := h.trace
  rw [format_eq] at htrace
  obtain ⟨es, hs, after, rfl, hcells, hend⟩ := htrace.bind_ended
  obtain ⟨rfl, hlast⟩ := hend.of_done
  cases hlast
  rw [List.append_nil] at hfollows
  obtain ⟨formatted, left, es, fs, texts, notes, rfl, hcode, hreformats, hset, hends⟩ :=
    trace_formatCells hcells
  have htake : n.codeCells.take formatted.length = formatted := by
    rw [codeCells, hcode, List.take_left]
  have hdrop : n.codeCells.drop formatted.length = left := by
    rw [codeCells, hcode, List.drop_left]
  have hsame : List.Forall₂ Cell.SameAround n.cells after.cells :=
    hset ▸ Cell.sameAround_setSources texts n.cells
  refine ⟨formatted.length, es, fs, texts, notes, hfollows, ⟨?_, ?_, ?_, hsame, rfl⟩, ?_, ?_⟩
  · rw [codeCells, hcode, List.length_append]
    exact Nat.le_add_right _ _
  · rw [htake]
    exact hreformats
  · rw [hdrop, codeCells, hset]
    exact Cell.fragments_setSources hcode hreformats.length_texts
  · intro changed rejections hok
    rcases hends with ⟨rfl, rfl, hresult, rfl⟩ | ⟨cell, rest, error, -, herror, -⟩
    · rw [hresult] at hok
      cases hok
      rw [decide_eq_true_iff, ne_eq, Cell.eq_iff_of_sameAround hsame]
      exact ⟨by rw [codeCells, hcode, List.append_nil], rfl, rfl, Iff.rfl⟩
    · rw [herror] at hok
      cases hok
  · intro error hfailed
    rcases hends with ⟨rfl, rfl, hresult, rfl⟩ | ⟨cell, rest, error', rfl, herror, hstop⟩
    · rw [hresult] at hfailed
      cases hfailed
    · rw [herror] at hfailed
      cases hfailed
      refine ⟨cell, ?_, hstop⟩
      rw [codeCells, hcode, List.getElem?_append_right (Nat.le_refl _), Nat.sub_self]
      rfl

/-- A notebook of three code cells and one of another kind, with a line as the source of the
first. -/
def crashing (line : Text) : Notebook :=
  ⟨[], [.code ⟨[], .lines, [line], []⟩, .other [(kindKey, .string [])],
    .code ⟨[], .text, ["raise_formatter_crash()".toList], []⟩,
    .code ⟨[], .lines, ["y=2".toList], []⟩], [], .compact⟩

/-- How the spacing formatter gives up. -/
def crash : FormatterError := .failed (some 1) "error: cannot format -: INTERNAL ERROR".toList

/-- It does so at the second code cell: the first has been rewritten, and the third has not. -/
theorem prefix_of_crashing :
    Task.Steps Spacing.formatter ((crashing "x=1".toList).format .standard, .start ⟨[], []⟩)
        (.done (crashing "x = 1\n".toList, .error crash),
          (((crashing "x=1".toList).format .standard).run Spacing.formatter
            (.start ⟨[], []⟩)).2) ∧
      ∃ count es fs texts notes,
        PrefixRewritten .standard (crashing "x=1".toList) (crashing "x = 1\n".toList) count es texts
          notes ∧
        ∃ cell, (crashing "x=1".toList).codeCells[count]? = some cell ∧
          StopsAt .standard cell notes fs crash := by
  have hrun : (((crashing "x=1".toList).format .standard).run Spacing.formatter
      (.start ⟨[], []⟩)).1 = (crashing "x = 1\n".toList, .error crash) := rfl
  have hsteps := Task.steps_run Spacing.formatter ((crashing "x=1".toList).format .standard)
    (.start ⟨[], []⟩)
  rw [hrun] at hsteps
  obtain ⟨count, es, fs, texts, notes, -, hprefix, -, hfailed⟩ := format_rewrites_prefix hsteps
  exact ⟨hsteps, count, es, fs, texts, notes, hprefix, hfailed _ rfl⟩

end Notebook
end NotebookTidy
