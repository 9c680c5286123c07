import NotebookTidy.Proofs.CalmRuns
import NotebookTidy.Proofs.CellTraces

/-!
# Notebooks that nobody interrupts

If it is known of each source by itself what formatting it yields, it is known of the notebook:
formatting puts the texts in the places of the sources and gathers the notes, and checking finds out
whether that would change anything, looking at the sources up to the first that it would change.
-/

namespace NotebookTidy

/-- The sources of the code cells. -/
def Cell.sources (cells : List Cell) : List Text := (cells.filterMap asCode?).map CodeCell.source

section
variable {answer : Call → Formatted} {mode : Mode} {text : Text → Text}
  {notes : Text → Rejections → Rejections}

/-- **What formatting cells yields**, given what formatting each source does. -/
theorem yields_formatCells_of {cells : List Cell}
    (h : ∀ source ∈ Cell.sources cells, ∀ rejections,
      (formatSource mode source).Yields answer rejections (text source) (notes source rejections))
    (rejections : Rejections) :
    Task.Yields answer (formatCells mode cells rejections)
      ⟨Cell.setSources ((Cell.sources cells).map text) cells,
        .ok (decide (Cell.setSources ((Cell.sources cells).map text) cells ≠ cells)),
        (Cell.sources cells).foldl (fun rejections source => notes source rejections)
          rejections⟩ := by
  induction cells generalizing rejections with
  | nil => exact .done _
  | cons cell rest ih =>
    cases cell with
    | other members =>
      rw [formatCells_other]
      refine .bind (ih h rejections) ?_
      have hsources : Cell.sources (.other members :: rest) = Cell.sources rest := rfl
      simp only [hsources, Cell.setSources_other, ne_eq, List.cons.injEq, true_and]
      exact .done _
    | code cell =>
      have hsources : Cell.sources (.code cell :: rest) = cell.source :: Cell.sources rest := rfl
      rw [hsources] at h
      obtain ⟨hcell, hrest⟩ := List.forall_mem_cons.mp h
      rw [formatCells_code]
      refine .poll (.bind (hcell rejections) (.bind (ih hrest _) ?_))
      have hset : Cell.setSources ((cell.source :: Cell.sources rest).map text)
          (.code cell :: rest) = .code (cell.setSource (text cell.source)) ::
            Cell.setSources ((Cell.sources rest).map text) rest := rfl
      rw [hsources, hset, after_decide]
      exact .done _

/-- **What checking cells yields**, given what formatting each source does.  The notes are those of
the sources that were looked at, which are all if none would change. -/
theorem yields_checkCells_of {cells : List Cell}
    (h : ∀ source ∈ Cell.sources cells, ∀ rejections,
      (formatSource mode source).Yields answer rejections (text source) (notes source rejections))
    (rejections : Rejections) :
    ∃ looked, looked <+: Cell.sources cells ∧
      (Cell.setSources ((Cell.sources cells).map text) cells = cells →
        looked = Cell.sources cells) ∧
      Task.Yields answer (checkCells mode cells rejections)
        (.ok (decide (Cell.setSources ((Cell.sources cells).map text) cells = cells)),
          looked.foldl (fun rejections source => notes source rejections) rejections) := by
  induction cells generalizing rejections with
  | nil => exact ⟨[], List.prefix_rfl, fun _ => rfl, .done _⟩
  | cons cell rest ih =>
    cases cell with
    | other members =>
      have hsources : Cell.sources (.other members :: rest) = Cell.sources rest := rfl
      simp only [hsources, Cell.setSources_other, List.cons.injEq, true_and]
      exact ih h rejections
    | code cell =>
      have hsources : Cell.sources (.code cell :: rest) = cell.source :: Cell.sources rest := rfl
      have hset : Cell.setSources ((cell.source :: Cell.sources rest).map text)
          (.code cell :: rest) = .code (cell.setSource (text cell.source)) ::
            Cell.setSources ((Cell.sources rest).map text) rest := rfl
      rw [hsources] at h ⊢
      obtain ⟨hcell, hrest⟩ := List.forall_mem_cons.mp h
      rw [checkCells_code, hset]
      by_cases hfragments : Fragment.split (text cell.source) = cell.fragments
      · have hsame : Cell.code (cell.setSource (text cell.source)) = .code cell :=
          code_setSource_eq_iff.mpr hfragments
        obtain ⟨looked, hlooked, hall, hyields⟩ := ih hrest (notes cell.source rejections)
        refine ⟨cell.source :: looked, List.cons_prefix_cons.mpr ⟨rfl, hlooked⟩, fun heq => ?_,
          .poll (.bind (hcell rejections) ?_)⟩
        · rw [hall (List.cons.inj heq).2]
        · simp only [hsame, hfragments, if_true, List.cons.injEq, true_and]
          exact hyields
      · have hother : ¬ Cell.code (cell.setSource (text cell.source)) = .code cell :=
          fun heq => hfragments (code_setSource_eq_iff.mp heq)
        refine ⟨[cell.source], List.cons_prefix_cons.mpr ⟨rfl, List.nil_prefix⟩,
          fun heq => absurd (List.cons.inj heq).1 hother, .poll (.bind (hcell rejections) ?_)⟩
        simp only [hfragments, if_false, List.cons.injEq, hother, false_and, decide_false]
        exact .done _

namespace Notebook
variable {n : Notebook}

/-- **What formatting a notebook yields**, given what formatting each source does. -/
theorem yields_format_of
    (h : ∀ source ∈ Cell.sources n.cells, ∀ rejections,
      (formatSource mode source).Yields answer rejections (text source) (notes source rejections)) :
    Task.Yields answer (n.format mode)
      (n.setSources ((Cell.sources n.cells).map text),
        .ok (decide (Cell.setSources ((Cell.sources n.cells).map text) n.cells ≠ n.cells),
          (Cell.sources n.cells).foldl (fun rejections source => notes source rejections)
            .empty)) := by
  rw [format_eq]
  exact .bind (yields_formatCells_of h .empty) (.done _)

/-- **What checking a notebook yields**, given what formatting each source does. -/
theorem yields_check_of
    (h : ∀ source ∈ Cell.sources n.cells, ∀ rejections,
      (formatSource mode source).Yields answer rejections (text source) (notes source rejections)) :
    ∃ looked, looked <+: Cell.sources n.cells ∧
      (Cell.setSources ((Cell.sources n.cells).map text) n.cells = n.cells →
        looked = Cell.sources n.cells) ∧
      Task.Yields answer (n.check mode)
        (.ok (decide (Cell.setSources ((Cell.sources n.cells).map text) n.cells = n.cells),
          looked.foldl (fun rejections source => notes source rejections) .empty)) := by
  obtain ⟨looked, hlooked, hall, hyields⟩ := yields_checkCells_of h .empty
  refine ⟨looked, hlooked, hall, ?_⟩
  rw [check_eq]
  exact .bind hyields (.done _)

end Notebook
end
end NotebookTidy
