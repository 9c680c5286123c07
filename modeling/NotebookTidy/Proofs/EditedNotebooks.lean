import NotebookTidy.Proofs.LayoutRoundTrip
import NotebookTidy.Proofs.NotebookValues
import NotebookTidy.Proofs.Utf8RoundTrip

/-!
# Notebooks whose sources have been set

A notebook that has been read can get other sources in its code cells, any number of times and in
any order (`Notebook.edit`).  The value that it then has is the value that was read, the sources
replaced in it and nothing else (`Notebook.toJson_edit`).

What reading makes sure of and setting a source keeps is `Notebook.Regular`.  A regular notebook is
read again as it was written, in the layout that its document shows; and of that layout only whether
it keeps to ASCII may have changed, which makes no difference to the document
(`Notebook.read_write_edit`).
-/

namespace NotebookTidy

/-! ## Setting sources in values -/

namespace Json

/-- Cells with the source of the code cell at a position replaced; positions count code cells
only. -/
def setSourceIn (text : Text) : Nat → List Json → List Json
  | _, [] => []
  | 0, v :: rest =>
    if v.isCodeCell then v.setSource text :: rest else v :: setSourceIn text 0 rest
  | position + 1, v :: rest =>
    v :: setSourceIn text (if v.isCodeCell then position else position + 1) rest

/-- A list of cells with the source of one code cell replaced. -/
def setCell (position : Nat) (text : Text) : Json → Json
  | .array cells => .array (setSourceIn text position cells)
  | v => v

/-- **A notebook's value with the source of the code cell at a position replaced.** -/
def replaceSource (position : Nat) (text : Text) : Json → Json
  | .object members => .object (Members.update cellsKey (setCell position text) members)
  | v => v

/-- A notebook's value with sources replaced one after the other, each given by the position of a
code cell and a text. -/
def edit (edits : List (Nat × Text)) (v : Json) : Json :=
  edits.foldl (fun v (position, text) => v.replaceSource position text) v

theorem resourced_setSourceIn (text : Text) (position : Nat) (cells : List Json) :
    Resourced (· = text) cells (setSourceIn text position cells) := by
  induction cells generalizing position with
  | nil => cases position <;> exact .nil
  | cons v rest ih =>
    cases position with
    | zero =>
      rw [setSourceIn]
      split
      · exact .set v (by rfl) (.refl _ rest)
      · exact .kept v (ih 0)
    | succ position => exact .kept v (ih _)

/-- Replacing a source keeps a value well-formed, and nests nothing deeper. -/
theorem replaceSource_keeps (position : Nat) (text : Text) {v : Json} (h : v.WellFormed) :
    (v.replaceSource position text).WellFormed ∧
      (v.replaceSource position text).depth ≤ v.depth := by
  cases v with
  | object members =>
    constructor
    · refine wellFormed_object (fun v hv => ?_) h
      cases v with
      | array cells => exact (resourced_setSourceIn text position cells).wellFormedItems hv
      | _ => exact hv
    · refine Nat.succ_le_succ (Members.depth_update (fun v => ?_) members)
      cases v with
      | array cells =>
        exact Nat.succ_le_succ (resourced_setSourceIn text position cells).depthItems_le
      | _ => exact Nat.le_refl _
  | _ => exact ⟨h, Nat.le_refl _⟩

end Json

/-! ## Setting sources in notebooks -/

namespace Notebook

/-- **A notebook with sources set one after the other**, each given by the position of a code cell
and a text. -/
def edit (edits : List (Nat × Text)) (n : Notebook) : Notebook :=
  edits.foldl (fun n (position, text) => n.setSource position text) n

/-- What holds of all cells still does when one has got another source, if it holds of every code
cell with another source. -/
theorem forall_setSourceIn {p : Cell → Prop} (text : Text)
    (hp : ∀ c, p (.code c) → p (.code (c.setSource text))) (position : Nat) {cells : List Cell}
    (h : ∀ cell ∈ cells, p cell) : ∀ cell ∈ setSourceIn text position cells, p cell := by
  induction cells generalizing position with
  | nil => exact h
  | cons cell rest ih =>
    obtain ⟨hcell, hrest⟩ := List.forall_mem_cons.mp h
    cases cell with
    | other members => exact List.forall_mem_cons.mpr ⟨hcell, ih position hrest⟩
    | code c =>
      cases position with
      | zero => exact List.forall_mem_cons.mpr ⟨hp c hcell, hrest⟩
      | succ position => exact List.forall_mem_cons.mpr ⟨hcell, ih position hrest⟩

/-- **Setting the source of a cell is setting it in the cell's value.** -/
theorem toJson_setSourceIn (text : Text) (position : Nat) {cells : List Cell}
    (h : ∀ cell ∈ cells, cell.Sound) :
    (setSourceIn text position cells).map Cell.toJson =
      Json.setSourceIn text position (cells.map Cell.toJson) := by
  induction cells generalizing position with
  | nil => cases position <;> rfl
  | cons cell rest ih =>
    obtain ⟨hcell, hrest⟩ := List.forall_mem_cons.mp h
    cases cell with
    | other members =>
      have hother := Cell.not_isCodeCell_of_sound hcell
      cases position with
      | zero => simp [setSourceIn, Json.setSourceIn, hother, ih 0 hrest]
      | succ position => simp [setSourceIn, Json.setSourceIn, hother, ih (position + 1) hrest]
    | code c =>
      have hcode := Cell.isCodeCell_of_sound hcell
      cases position with
      | zero =>
        have hsource : (Cell.code (c.setSource text)).toJson =
            (Cell.code c).toJson.setSource text :=
          congrArg Json.object (CodeCell.members_setSource text hcell.1)
        simp [setSourceIn, Json.setSourceIn, hcode, hsource]
      | succ position => simp [setSourceIn, Json.setSourceIn, hcode, ih position hrest]

theorem toJson_setSource (position : Nat) (text : Text) {n : Notebook} (h : n.Sound) :
    (n.setSource position text).toJson = n.toJson.replaceSource position text := by
  rw [toJson, setSource, toJson_setSourceIn text position h.2]
  have hcells := Members.update_append (f := Json.setCell position text) h.1
    (.array (n.cells.map Cell.toJson)) n.after
  exact congrArg Json.object hcells.symm

theorem Sound.setSource {n : Notebook} (h : n.Sound) (position : Nat) (text : Text) :
    (n.setSource position text).Sound :=
  ⟨h.1, forall_setSourceIn text (fun _ hc => Cell.Sound.setSource hc text) position h.2⟩

/-- **The value of a notebook whose sources have been set** is its value with these sources
replaced. -/
theorem toJson_edit (edits : List (Nat × Text)) {n : Notebook} (h : n.Sound) :
    (n.edit edits).toJson = n.toJson.edit edits := by
  induction edits generalizing n with
  | nil => rfl
  | cons first rest ih =>
    obtain ⟨position, text⟩ := first
    have hrest := ih (h.setSource position text)
    rw [toJson_setSource position text h] at hrest
    exact hrest

theorem layout_edit (edits : List (Nat × Text)) (n : Notebook) :
    (n.edit edits).layout = n.layout := by
  induction edits generalizing n with
  | nil => rfl
  | cons first rest ih => exact ih (n.setSource first.1 first.2)

/-- **A notebook's document shows its layout.** -/
theorem shows_write {n : Notebook} (hl : n.layout.WellFormed) (hn : n.toJson.WellFormed) :
    n.layout.Shows (Layout.detect n.write) n.toJson := by
  obtain ⟨key, v, rest, hmembers⟩ := n.toJson_eq_cons
  rw [hmembers] at hn
  rw [write, hmembers]
  exact Layout.shows_detect_write hl hn

/-! ## Regular notebooks -/

/-- **What reading makes sure of and setting a source keeps.** -/
structure Regular (n : Notebook) : Prop where
  /-- The cells and the code cells' sources stand where they are looked for. -/
  sound : n.Sound
  /-- The fragments of the cells can be told from how they are stored. -/
  stored : ∀ cell ∈ n.cells, cell.Stored
  /-- The value is one that documents have. -/
  wellFormed : n.toJson.WellFormed
  /-- The value is not nested too deep. -/
  depth_le : n.toJson.depth ≤ Json.nestingLimit
  /-- The layout is one that documents are written in. -/
  layout : n.layout.WellFormed

namespace Regular
variable {n : Notebook}

/-- A notebook that has been read is regular. -/
theorem of_read {document : Text} (h : read document = .ok n) : n.Regular := by
  obtain ⟨hvalue, hsound, hstored, hlayout⟩ := Notebook.of_read h
  obtain ⟨hwellFormed, hdepth⟩ := Json.wellFormed_of_read? hvalue
  exact ⟨hsound, hstored, hwellFormed, hdepth, hlayout ▸ wellFormed_detect document⟩

theorem setSource (h : n.Regular) (position : Nat) (text : Text) :
    (n.setSource position text).Regular where
  sound := h.sound.setSource position text
  stored := forall_setSourceIn text
    (fun _ _ _ => congrArg Fragment.split (Fragment.join_split text)) position h.stored
  wellFormed := by
    rw [toJson_setSource position text h.sound]
    exact (Json.replaceSource_keeps position text h.wellFormed).1
  depth_le := by
    rw [toJson_setSource position text h.sound]
    exact Nat.le_trans (Json.replaceSource_keeps position text h.wellFormed).2 h.depth_le
  layout := h.layout

/-- Sources can be set one after the other. -/
theorem edit (h : n.Regular) (edits : List (Nat × Text)) : (n.edit edits).Regular := by
  induction edits generalizing n with
  | nil => exact h
  | cons first rest ih => exact ih (h.setSource first.1 first.2)

/-- **A regular notebook is read as it was written**, in the layout that its document shows. -/
theorem read_write (h : n.Regular) :
    read n.write = .ok { n with layout := Layout.detect n.write } := by
  refine read_of_read? ?_ h.sound h.stored
  rw [withoutMark_write]
  exact Layout.read?_body h.layout h.wellFormed h.depth_le

/-- The document of a regular notebook shows the notebook's layout. -/
theorem shows (h : n.Regular) : n.layout.Shows (Layout.detect n.write) n.toJson :=
  shows_write h.layout h.wellFormed

end Regular

/-! ## Notebooks that are read again -/

/-- **Reading undoes writing**, for a notebook that has been read and whose sources may have been
set since then: its document is text, and is read as the same notebook.  Only whether the layout
keeps to ASCII may be told otherwise, and the document written then is the same text. -/
theorem read_write_edit {document : Text} {n : Notebook} (h : read document = .ok n)
    (edits : List (Nat × Text)) :
    Utf8.decode (Utf8.encode (n.edit edits).write) = .ok (n.edit edits).write ∧
      ∃ n' ascii, read (n.edit edits).write = .ok n' ∧
        n' = { n.edit edits with layout := { n.layout with asciiOnly := ascii } } ∧
        n'.write = (n.edit edits).write := by
  have hregular := (Regular.of_read h).edit edits
  have hshows := hregular.shows
  have hlayout : Layout.detect (n.edit edits).write =
      { n.layout with asciiOnly := (Layout.detect (n.edit edits).write).asciiOnly } := by
    rw [layout_edit, (of_read h).2.2.2] at hshows
    rw [(of_read h).2.2.2]
    exact hshows.detect_eq
  refine ⟨Utf8.decode_encode _, _, (Layout.detect (n.edit edits).write).asciiOnly,
    hregular.read_write, ?_, hshows.write_eq id⟩
  rw [← hlayout]

/-- A document whose only character beyond ASCII is escaped, in a list of fragments that are no
lines. -/
def escaped : Text :=
  "\x7b\"cells\":[\x7b\"cell_type\":\"code\",\"source\":[\"\\u00e9\",\"=1\"]\x7d]\x7d".toList

/-- The notebook in it, with other fragments, and keeping to ASCII or not. -/
def escapedNotebook (fragments : List Text) (ascii : Bool) : Notebook :=
  ⟨[], [.code ⟨[(kindKey, .string codeKind)], .lines, fragments, []⟩], [],
    { Layout.compact with asciiOnly := ascii }⟩

/-- Once its source is in ASCII, its document no longer shows that it escapes. -/
theorem read_write_of_escaped :
    ∃ n', read escaped = .ok (escapedNotebook ["\u00e9".toList, "=1".toList] true) ∧
      read (escapedNotebook ["y\n".toList, "x".toList] true).write = .ok n' ∧
      n' = escapedNotebook ["y\n".toList, "x".toList] false ∧
      n'.write = (escapedNotebook ["y\n".toList, "x".toList] true).write := by
  have hread : read escaped = .ok (escapedNotebook ["\u00e9".toList, "=1".toList] true) := rfl
  obtain ⟨-, n', ascii, hagain, -, hwrite⟩ := read_write_edit hread [(0, "y\nx".toList)]
  refine ⟨n', hread, hagain, ?_, hwrite⟩
  have hdrift : read (escapedNotebook ["y\n".toList, "x".toList] true).write =
      .ok (escapedNotebook ["y\n".toList, "x".toList] false) := rfl
  exact Except.ok.inj (hagain.symm.trans hdrift)

end Notebook
end NotebookTidy
