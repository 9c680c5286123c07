import NotebookTidy.Proofs.CalmNotebooks
import NotebookTidy.Proofs.EditedNotebooks
import NotebookTidy.Proofs.SpacedSources

/-!
# Spaced notebooks

With the spacing formatter and nobody who cancels, formatting a notebook is known in full: it fails
if a code cell has the crash word, and otherwise puts `Spacing.tidySource` of each source in its
place.  A notebook that came of it, written and read again, is found to be formatted, with the same
notes, and formatting it again changes nothing (`Notebook.format_idempotent`).
-/

namespace NotebookTidy

open Spacing (crashWord tidy tidySource noted notedAll notedSource)

/-! ## Sources -/

theorem yields_formatSegment (mode : Mode) {segment : Text} (h : ¬ crashWord <:+: segment)
    (rejections : Rejections) :
    (formatSegment mode segment).Yields Spacing.answer rejections (tidy segment)
      (noted segment rejections) := by
  by_cases hnil : segment = []
  · subst hnil
    exact .pure []
  · rw [Noting.Yields, start_formatSegment hnil]
    refine .ask ?_
    rw [Spacing.answer, Spacing.format_eq h, noted]
    cases hrefusal : Spacing.refusal? segment with
    | none =>
      rw [Spacing.tidy_of_accepted hrefusal]
      exact .done _
    | some found =>
      rw [Spacing.tidy_of_refused (by simp [hrefusal])]
      exact .done _

theorem yields_mapTailM (mode : Mode) {tail : List (Text × Text)}
    (h : ∀ entry ∈ tail, ¬ crashWord <:+: entry.2) (rejections : Rejections) :
    (Segments.mapTailM (formatSegment mode) tail).Yields Spacing.answer rejections
      (tail.map fun (directive, code) => (directive, tidy code))
      (notedAll (tail.map Prod.snd) rejections) := by
  induction tail generalizing rejections with
  | nil => exact .pure []
  | cons entry rest ih =>
    obtain ⟨directive, code⟩ := entry
    obtain ⟨hcode, hrest⟩ := List.forall_mem_cons.mp h
    exact .bind (yields_formatSegment mode hcode rejections) (.bind (ih hrest _) (.pure _))

/-- **What formatting a source yields** if it does not have the crash word. -/
theorem yields_formatSource (mode : Mode) {text : Text} (h : ¬ crashWord <:+: text)
    (rejections : Rejections) :
    (formatSource mode text).Yields Spacing.answer rejections (tidySource text)
      (notedSource text rejections) := by
  rw [Noting.Yields, start_formatSource]
  refine .ask ?_
  rw [Spacing.answer, Spacing.format_eq h, tidySource, notedSource, Spacing.isCut, noted]
  cases hrefusal : Spacing.refusal? text with
  | none =>
    rw [Spacing.tidy_of_accepted hrefusal]
    exact .done _
  | some found =>
    obtain ⟨number, line⟩ := found
    by_cases hcut : cutsUp text (some line) = true
    · simp only [hcut, if_true]
      have hhead : ¬ crashWord <:+: (Segments.split text).head := fun hwithin =>
        h (Spacing.infix_of_split hwithin (Or.inl rfl))
      have htail : ∀ entry ∈ (Segments.split text).tail, ¬ crashWord <:+: entry.2 :=
        fun entry hentry hwithin =>
          h (Spacing.infix_of_split hwithin (Or.inr ⟨entry, hentry, Or.inr rfl⟩))
      have hsegments : ((Segments.split text).mapCodeM (formatSegment mode)).Yields Spacing.answer
          rejections ((Segments.split text).mapCode tidy)
          (notedAll (Segments.split text).code rejections) :=
        .bind (yields_formatSegment mode hhead rejections)
          (.bind (yields_mapTailM mode htail _) (.pure _))
      exact Noting.Yields.bind hsegments (.pure _)
    · simp only [hcut, Bool.false_eq_true, if_false]
      rw [Spacing.tidy_of_refused (by simp [hrefusal])]
      exact .done _

/-- Formatting a source with the crash word fails. -/
theorem yields_formatSource_of_crash (mode : Mode) {text : Text} (h : crashWord <:+: text)
    (rejections : Rejections) :
    ∃ error, Task.Yields Spacing.answer ((formatSource mode text).start rejections)
      (.error error, rejections) := by
  obtain ⟨complaint, hformat⟩ : ∃ complaint,
      Spacing.format text = .error (.failed (some 1) complaint) :=
    ⟨_, if_pos (Text.contains_iff.mpr h)⟩
  refine ⟨.failed (some 1) complaint, ?_⟩
  rw [start_formatSource]
  refine .ask ?_
  rw [Spacing.answer, hformat]
  exact .done _

/-! ## Cells -/

/-- The notes after sources, one after the other. -/
def Spacing.notedSources (sources : List Text) (rejections : Rejections) : Rejections :=
  sources.foldl (fun rejections source => notedSource source rejections) rejections

/-- Formatting cells fails if one has the crash word. -/
theorem yields_formatCells_of_crash (mode : Mode) {cells : List Cell}
    (h : ∃ source ∈ Cell.sources cells, crashWord <:+: source) (rejections : Rejections) :
    ∃ after error, Task.Yields Spacing.answer (formatCells mode cells rejections) after ∧
      after.result = .error error := by
  induction cells generalizing rejections with
  | nil =>
    obtain ⟨source, hsource, -⟩ := h
    cases hsource
  | cons cell rest ih =>
    cases cell with
    | other members =>
      obtain ⟨after, error, hafter, herror⟩ := ih h rejections
      refine ⟨{ after with cells := .other members :: after.cells }, error, ?_, herror⟩
      rw [formatCells_other]
      exact .bind hafter (.done _)
    | code cell =>
      rw [formatCells_code]
      by_cases hcell : crashWord <:+: cell.source
      · obtain ⟨error, hsource⟩ := yields_formatSource_of_crash mode hcell rejections
        exact ⟨_, error, .poll (.bind hsource (.done _)), rfl⟩
      · -- this cell is formatted, and a later one has the crash word
        have hrest : ∃ source ∈ Cell.sources rest, crashWord <:+: source := by
          obtain ⟨source, hsource, hwithin⟩ := h
          rcases List.mem_cons.mp hsource with rfl | hsource
          · exact absurd hwithin hcell
          · exact ⟨source, hsource, hwithin⟩
        obtain ⟨after, error, hafter, herror⟩ := ih hrest (notedSource cell.source rejections)
        refine ⟨_, error, .poll (.bind (yields_formatSource mode hcell rejections)
          (.bind hafter (.done _))), ?_⟩
        rw [Formatting.after, herror]
        rfl

/-! ## Notebooks that have been formatted -/

theorem Cell.sources_setSources {texts : List Text} {cells : List Cell}
    (h : texts.length = (sources cells).length) : sources (setSources texts cells) = texts := by
  induction cells generalizing texts with
  | nil =>
    rw [List.eq_nil_of_length_eq_zero h]
    rfl
  | cons cell rest ih =>
    cases cell with
    | other members =>
      rw [setSources_other]
      exact ih h
    | code cell =>
      cases texts with
      | nil => cases h
      | cons text texts =>
        have hsource : (cell.setSource text).source = text := Fragment.join_split text
        have hrest := ih (Nat.succ.inj h)
        change (cell.setSource text).source :: sources (setSources texts rest) = _
        rw [hsource, hrest]

/-- Texts that are put into cells a second time make no difference. -/
theorem Cell.setSources_setSources (texts : List Text) (cells : List Cell) :
    setSources texts (setSources texts cells) = setSources texts cells := by
  induction cells generalizing texts with
  | nil => cases texts <;> rfl
  | cons cell rest ih =>
    cases cell with
    | other members => rw [setSources_other, setSources_other, ih]
    | code cell =>
      cases texts with
      | nil => rfl
      | cons text texts => exact congrArg (.code (cell.setSource text) :: ·) (ih texts)

/-- Sources that have been formatted get the same notes again. -/
theorem notedSources_tidySource (sources : List Text) (rejections : Rejections) :
    Spacing.notedSources (sources.map tidySource) rejections =
      Spacing.notedSources sources rejections := by
  rw [Spacing.notedSources, List.foldl_map, Spacing.notedSources]
  exact congrArg (fun f => sources.foldl f rejections)
    (funext fun between => funext fun source => Spacing.notedSource_tidySource source between)

namespace Notebook

/-- **What formatting a notebook yields** if no code cell has the crash word. -/
theorem yields_format (mode : Mode) {n : Notebook}
    (h : ∀ source ∈ Cell.sources n.cells, ¬ crashWord <:+: source) :
    Task.Yields Spacing.answer (n.format mode)
      (n.setSources ((Cell.sources n.cells).map tidySource),
        .ok (decide (Cell.setSources ((Cell.sources n.cells).map tidySource) n.cells ≠ n.cells),
          Spacing.notedSources (Cell.sources n.cells) .empty)) :=
  yields_format_of fun source hsource => yields_formatSource mode (h source hsource)

theorem yields_format_of_crash (mode : Mode) {n : Notebook}
    (h : ∃ source ∈ Cell.sources n.cells, crashWord <:+: source) :
    ∃ n' error, Task.Yields Spacing.answer (n.format mode) (n', .error error) := by
  obtain ⟨after, error, hafter, herror⟩ := yields_formatCells_of_crash mode h .empty
  refine ⟨{ n with cells := after.cells }, error, ?_⟩
  rw [format_eq]
  refine .bind hafter ?_
  rw [herror]
  exact .done _

/-- **What checking a notebook yields** if formatting would change none of its cells. -/
theorem yields_check (mode : Mode) {n : Notebook}
    (h : ∀ source ∈ Cell.sources n.cells, ¬ crashWord <:+: source)
    (htidy : Cell.setSources ((Cell.sources n.cells).map tidySource) n.cells = n.cells) :
    Task.Yields Spacing.answer (n.check mode)
      (.ok (true, Spacing.notedSources (Cell.sources n.cells) .empty)) := by
  obtain ⟨looked, -, hall, hyields⟩ :=
    yields_check_of fun source hsource => yields_formatSource mode (h source hsource)
  rw [hall htidy, decide_eq_true htidy] at hyields
  exact hyields

/-- **A notebook is written in the layout that its document shows as it was**, whatever sources it
has got since it was read. -/
theorem write_detect_setSources {document : Text} {n : Notebook} (h : read document = .ok n)
    (texts : List Text) :
    { n.setSources texts with layout := Layout.detect (n.setSources texts).write }.write =
      (n.setSources texts).write := by
  obtain ⟨hvalue, hsound, -, hlayout⟩ := of_read h
  have hwellFormed : (n.setSources texts).toJson.WellFormed := by
    rw [toJson_setSources texts hsound]
    exact Json.wellFormed_replaceSources texts (Json.wellFormed_of_read? hvalue).1
  have hl : (n.setSources texts).layout.WellFormed := by
    rw [setSources, hlayout]
    exact wellFormed_detect document
  exact (shows_write hl hwellFormed).write_eq id

/-- **What a formatting that succeeds has done**: no source had the crash word, and each has become
what the spacing formatter makes of it. -/
theorem of_format_run {n n' : Notebook} {mode : Mode} {w after : World} {changed : Bool}
    {rejections : Rejections} (hcalm : w.cancelled = false)
    (hformat : (n.format mode).run Spacing.formatter w =
      ((n', .ok (changed, rejections)), after)) :
    (∀ source ∈ Cell.sources n.cells, ¬ crashWord <:+: source) ∧
      n' = n.setSources ((Cell.sources n.cells).map tidySource) ∧
      rejections = Spacing.notedSources (Cell.sources n.cells) .empty := by
  have hsources : ∀ source ∈ Cell.sources n.cells, ¬ crashWord <:+: source := by
    intro source hsource hwithin
    obtain ⟨m, error, hfails⟩ := yields_format_of_crash mode ⟨source, hsource, hwithin⟩
    have hresult := hfails.result_eq hcalm
    rw [show Formatter.ofFunction Spacing.answer = Spacing.formatter from rfl, hformat] at hresult
    cases hresult
  have hresult := (yields_format mode hsources).result_eq hcalm
  rw [show Formatter.ofFunction Spacing.answer = Spacing.formatter from rfl, hformat] at hresult
  simp only [Prod.mk.injEq, Except.ok.injEq] at hresult
  exact ⟨hsources, hresult.1, hresult.2.2⟩

/-- **A notebook of tidy sources** is found to be formatted, and formatting it changes nothing. -/
theorem runs_of_tidy {n : Notebook} {texts : List Text} (hsources : Cell.sources n.cells = texts)
    (hcells : Cell.setSources texts n.cells = n.cells) (htidy : texts.map tidySource = texts)
    (hcrash : ∀ source ∈ texts, ¬ crashWord <:+: source) (mode : Mode) {w : World}
    (hcalm : w.cancelled = false) :
    ((n.check mode).run Spacing.formatter w).1 =
        .ok (true, Spacing.notedSources texts .empty) ∧
      ((n.format mode).run Spacing.formatter w).1 =
        (n, .ok (false, Spacing.notedSources texts .empty)) := by
  subst hsources
  have hsame : Cell.setSources ((Cell.sources n.cells).map tidySource) n.cells = n.cells := by
    rw [htidy, hcells]
  refine ⟨(yields_check mode hcrash hsame).result_eq hcalm, ?_⟩
  have hformat := (yields_format mode hcrash).result_eq hcalm
  have hnotebook : n.setSources ((Cell.sources n.cells).map tidySource) = n := by
    rw [setSources, hsame]
  rw [hnotebook, hsame, decide_eq_false (not_not_intro rfl)] at hformat
  exact hformat

/-- **Formatting is idempotent.**  If a notebook read from a document is formatted with the spacing
formatter, and nobody cancels, then the document written of it is read as a notebook that is found
to be formatted, with the same notes; formatting that one changes nothing and notes the same; and
its document is the same text. -/
theorem format_idempotent {document : Text} {n n' : Notebook} {mode : Mode} {w after : World}
    {changed : Bool} {rejections : Rejections} (hread : read document = .ok n)
    (hcalm : w.cancelled = false)
    (hformat : (n.format mode).run Spacing.formatter w =
      ((n', .ok (changed, rejections)), after)) :
    ∃ n'', read n'.write = .ok n'' ∧ n''.write = n'.write ∧ n''.cells = n'.cells ∧
      ∀ u : World, u.cancelled = false →
        ((n''.check mode).run Spacing.formatter u).1 = .ok (true, rejections) ∧
        ((n''.format mode).run Spacing.formatter u).1 = (n'', .ok (false, rejections)) := by
  obtain ⟨hcrash, rfl, rfl⟩ := of_format_run hcalm hformat
  -- the second run is told from the closed forms of the first, not from the run itself
  rw [← notedSources_tidySource]
  have htidy : ((Cell.sources n.cells).map tidySource).map tidySource =
      (Cell.sources n.cells).map tidySource := by
    rw [List.map_map]
    exact List.map_congr_left fun source _ => Spacing.tidySource_tidySource source
  have hcrash' : ∀ source ∈ (Cell.sources n.cells).map tidySource, ¬ crashWord <:+: source := by
    intro source hsource hwithin
    obtain ⟨old, hold, rfl⟩ := List.mem_map.mp hsource
    exact hcrash old hold (Spacing.infix_tidySource hwithin)
  have hlength : ((Cell.sources n.cells).map tidySource).length = n.codeCells.length := by
    rw [List.length_map, Cell.sources, List.length_map, codeCells]
  have hsources : Cell.sources (n.setSources ((Cell.sources n.cells).map tidySource)).cells =
      (Cell.sources n.cells).map tidySource := Cell.sources_setSources (List.length_map _)
  refine ⟨_, read_write_setSources hread hlength, write_detect_setSources hread _, rfl,
    fun u hu => runs_of_tidy ?_ ?_ htidy hcrash' mode hu⟩
  · exact hsources
  · exact Cell.setSources_setSources _ n.cells

/-- A document whose code has a directive, a line to be spaced, and a segment that is refused. -/
def mixed : Text :=
  "\x7b\"cells\":[\x7b\"cell_type\":\"code\",\"source\":\"%ls\\nx=1\\n!ls\\nf(:\"\x7d]\x7d".toList

/-- The notebook in it, with another line in place of its second. -/
def mixedNotebook (line : Text) : Notebook :=
  ⟨[], [.code ⟨[(kindKey, .string codeKind)], .text,
    ["%ls\n".toList, line, "!ls\n".toList, "f(:".toList], []⟩], [], .compact⟩

/-- Its refused segment is noted down in both runs, and its line is spaced in the first. -/
theorem idempotent_of_mixed :
    ∃ rejections w n'', read mixed = .ok (mixedNotebook "x=1\n".toList) ∧
      ((mixedNotebook "x=1\n".toList).format .standard).run Spacing.formatter
          (.start ⟨[], []⟩) = ((mixedNotebook "x = 1\n".toList, .ok (true, rejections)), w) ∧
      rejections.entries = [("f(:".toList, "Cannot parse: 1:0: f(:".toList)] ∧
      read (mixedNotebook "x = 1\n".toList).write = .ok n'' ∧
      ((n''.format .standard).run Spacing.formatter (.start ⟨[], []⟩)).1 =
        (n'', .ok (false, rejections)) := by
  have hread : read mixed = .ok (mixedNotebook "x=1\n".toList) := rfl
  obtain ⟨rejections, w, hformat, hentries⟩ : ∃ rejections w,
      ((mixedNotebook "x=1\n".toList).format .standard).run Spacing.formatter
          (.start ⟨[], []⟩) = ((mixedNotebook "x = 1\n".toList, .ok (true, rejections)), w) ∧
        rejections.entries = [("f(:".toList, "Cannot parse: 1:0: f(:".toList)] :=
    ⟨_, _, rfl, rfl⟩
  obtain ⟨n'', hagain, -, -, hruns⟩ := format_idempotent hread rfl hformat
  exact ⟨rejections, w, n'', hread, hformat, hentries, hagain, (hruns (.start ⟨[], []⟩) rfl).2⟩

end Notebook
end NotebookTidy
