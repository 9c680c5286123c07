import NotebookTidy.Proofs.EditedNotebooks
import NotebookTidy.Proofs.RenderedText

/-!
# Notebooks in rendered documents

`Layout.render` says by recursion what the document of a value in a layout is.  Which values are
notebooks is said without a document, too (`Json.IsNotebook`), and these are the values that are
read from documents (`Notebook.isNotebook_iff`).

The document of such a value in any layout is read, and written again it is the same text.  If
sources have been set, what is written is the document, in the same layout, of the value in which
these sources have been replaced (`Notebook.read_render`).  Only of whether strings are escaped this
may not be so: a value without any character beyond ASCII does not show it, and then neither does
its document.
-/

namespace NotebookTidy

/-! ## Sources in ASCII -/

theorem Members.ascii_update {key : Text} {f : Json → Json} (hf : ∀ v : Json, v.Ascii → (f v).Ascii)
    {members : Members} (h : Json.AsciiMembers members) :
    Json.AsciiMembers (update key f members) := by
  induction members with
  | nil => trivial
  | cons member rest ih =>
    obtain ⟨k, v⟩ := member
    rw [update]
    split
    · exact ⟨h.1, hf v h.2.1, h.2.2⟩
    · exact ⟨h.1, h.2.1, ih h.2.2⟩

namespace Json

theorem asciiItems_strings {lines : List Text} (h : ∀ line ∈ lines, ∀ c ∈ line, c.toNat < 0x80) :
    AsciiItems (lines.map .string) := by
  induction lines with
  | nil => trivial
  | cons line rest ih =>
    obtain ⟨hline, hrest⟩ := List.forall_mem_cons.mp h
    exact ⟨hline, ih hrest⟩

variable {text : Text}

theorem ascii_setText (htext : ∀ c ∈ text, c.toNat < 0x80) {v : Json} (h : v.Ascii) :
    (v.setText text).Ascii := by
  cases v with
  | string t => exact htext
  | array items =>
    refine asciiItems_strings fun line hline c hc => htext c ?_
    rw [← Fragment.join_split text]
    exact List.mem_flatten.mpr ⟨line, hline, hc⟩
  | _ => exact h

theorem ascii_setSource (htext : ∀ c ∈ text, c.toNat < 0x80) {v : Json} (h : v.Ascii) :
    (v.setSource text).Ascii := by
  cases v with
  | object members => exact Members.ascii_update (fun _ => ascii_setText htext) h
  | _ => exact h

theorem Resourced.asciiItems {allowed : Text → Prop} {cells cells' : List Json}
    (h : Resourced allowed cells cells') (hallowed : ∀ t, allowed t → ∀ c ∈ t, c.toNat < 0x80)
    (hcells : AsciiItems cells) : AsciiItems cells' := by
  induction h with
  | nil => trivial
  | kept v rest ih => exact ⟨hcells.1, ih hcells.2⟩
  | set v text_allowed rest ih =>
    exact ⟨ascii_setSource (hallowed _ text_allowed) hcells.1, ih hcells.2⟩

theorem ascii_replaceSource (htext : ∀ c ∈ text, c.toNat < 0x80) (position : Nat) {v : Json}
    (h : v.Ascii) : (v.replaceSource position text).Ascii := by
  cases v with
  | object members =>
    refine Members.ascii_update (fun v hv => ?_) h
    cases v with
    | array cells =>
      exact (resourced_setSourceIn text position cells).asciiItems (fun _ heq => heq ▸ htext) hv
    | _ => exact hv
  | _ => exact h

/-- **Sources in ASCII bring nothing beyond it.** -/
theorem ascii_edit {edits : List (Nat × Text)}
    (htexts : ∀ edit ∈ edits, ∀ c ∈ edit.2, c.toNat < 0x80) {v : Json} (h : v.Ascii) :
    (v.edit edits).Ascii := by
  induction edits generalizing v with
  | nil => exact h
  | cons first rest ih =>
    obtain ⟨hfirst, hrest⟩ := List.forall_mem_cons.mp htexts
    exact ih hrest (ascii_replaceSource hfirst first.1 h)

/-! ## Values that are notebooks -/

/-- The source of a code cell is a text or a list of texts. -/
inductive IsSource : Json → Prop
  | text (t : Text) : IsSource (.string t)
  | lines (lines : List Text) : IsSource (.array (lines.map .string))

/-- A cell is an object that says its kind, and has a source if it is of the kind of code cells. -/
inductive IsCell : Json → Prop
  | code {members : Members} {source : Json}
      (kind : Members.get? kindKey members = some (.string codeKind))
      (found : Members.get? sourceKey members = some source) (sound : source.IsSource) :
      IsCell (.object members)
  | other {members : Members} {kind : Text}
      (found : Members.get? kindKey members = some (.string kind)) (other : kind ≠ codeKind) :
      IsCell (.object members)

/-- **A value that is a notebook**: one that documents have, with a list of cells. -/
structure IsNotebook (v : Json) : Prop where
  /-- Keys are distinct and numbers are numerals. -/
  wellFormed : v.WellFormed
  /-- The value is not nested too deep. -/
  depth_le : v.depth ≤ nestingLimit
  /-- There is a list of cells. -/
  cells : ∃ members cells, v = .object members ∧
    Members.get? cellsKey members = some (.array cells) ∧ ∀ cell ∈ cells, cell.IsCell

end Json

namespace Cell

/-- **A value that is a cell is accepted.** -/
theorem exists_ofJson {v : Json} (h : v.IsCell) : ∃ cell, ofJson v = .ok cell := by
  cases h with
  | @other members kind hkind hother => exact ⟨.other members, by simp [ofJson, hkind, hother]⟩
  | @code members source hkind hfound hsource =>
    rw [Members.get?_eq_split?, Option.map_eq_some_iff] at hfound
    obtain ⟨⟨before, v, after⟩, hsplit, rfl⟩ := hfound
    cases hsource with
    | text t => simp [ofJson, hkind, CodeCell.ofMembers, hsplit, CodeCell.sourceOf, Except.map]
    | lines lines =>
      simp [ofJson, hkind, CodeCell.ofMembers, hsplit, CodeCell.sourceOf,
        CodeCell.fragmentsOf_strings, Except.map]

theorem exists_ofList (index : Nat) {values : List Json} (h : ∀ v ∈ values, v.IsCell) :
    ∃ cells, ofList index values = .ok cells := by
  induction values generalizing index with
  | nil => exact ⟨[], rfl⟩
  | cons v rest ih =>
    obtain ⟨hv, hrest⟩ := List.forall_mem_cons.mp h
    obtain ⟨cell, hcell⟩ := exists_ofJson hv
    obtain ⟨cells, hcells⟩ := ih (index + 1) hrest
    exact ⟨cell :: cells, by simp [ofList, hcell, hcells, Except.map]⟩

/-- Every cell is stored as a value that is a cell. -/
theorem isCell_toJson {cell : Cell} (h : cell.Sound) : cell.toJson.IsCell := by
  cases cell with
  | other members =>
    obtain ⟨kind, hkind, hother⟩ := h
    exact .other hkind hother
  | code c =>
    refine .code h.2 (Members.get?_append h.1 _ _) ?_
    obtain ⟨before, shape, fragments, after⟩ := c
    cases shape with
    | lines => exact .lines fragments
    | text => exact .text _

end Cell

namespace Notebook

/-- **A value that is a notebook is accepted**, whatever the layout may be. -/
theorem exists_ofJson (l : Layout) {v : Json} (h : v.IsNotebook) : ∃ n, ofJson l v = .ok n := by
  obtain ⟨members, values, rfl, hfound, hvalues⟩ := h.cells
  rw [Members.get?_eq_split?, Option.map_eq_some_iff] at hfound
  obtain ⟨⟨before, v, after⟩, hsplit, rfl⟩ := hfound
  obtain ⟨cells, hcells⟩ := Cell.exists_ofList 0 hvalues
  exact ⟨⟨before, cells, after, l⟩, by simp [ofJson, hsplit, hcells, Except.map]⟩

/-- A notebook with the value is regular in any layout that documents are written in. -/
theorem Regular.of_ofJson {l : Layout} (hl : l.WellFormed) {v : Json} (hv : v.IsNotebook)
    {n : Notebook} (h : ofJson l v = .ok n) : n.Regular := by
  obtain ⟨rfl, hsound, hstored, rfl⟩ := Notebook.of_ofJson h
  exact ⟨hsound, hstored, hv.wellFormed, hv.depth_le, hl⟩

/-- **The values that are notebooks are those that are read from documents.** -/
theorem isNotebook_iff {v : Json} :
    v.IsNotebook ↔ ∃ document n, read document = .ok n ∧ n.toJson = v := by
  constructor
  · intro h
    obtain ⟨n, hn⟩ := exists_ofJson .compact h
    have hcompact : Layout.compact.WellFormed := ⟨fun _ hindent => (nomatch hindent), fun _ => rfl⟩
    exact ⟨n.write, _, (Regular.of_ofJson hcompact h hn).read_write, (of_ofJson hn).1⟩
  · rintro ⟨document, n, hn, rfl⟩
    have hregular := Regular.of_read hn
    refine ⟨hregular.wellFormed, hregular.depth_le, _, _, rfl,
      Members.get?_append hregular.sound.1 _ _, ?_⟩
    intro v hv
    obtain ⟨cell, hcell, rfl⟩ := List.mem_map.mp hv
    exact Cell.isCell_toJson (hregular.sound.2 cell hcell)

/-- **Rendered documents survive.**  The document of a notebook's value in any layout is read, and
written as it was.  With sources that have been set, what is written is the document in the same
layout of the value in which these sources have been replaced, unless they are the first to go
beyond ASCII. -/
theorem read_render {l : Layout} (hl : l.WellFormed) {v : Json} (hv : v.IsNotebook) :
    ∃ n, read (l.render v) = .ok n ∧ n.write = l.render v ∧
      ∀ edits, (v.Ascii → (v.edit edits).Ascii) →
        (n.edit edits).write = l.render (v.edit edits) := by
  obtain ⟨n, hn⟩ := exists_ofJson l hv
  have hregular := Regular.of_ofJson hl hv hn
  obtain ⟨rfl, hsound, -, rfl⟩ := of_ofJson hn
  -- the document is what this notebook writes, so the layout is told from it
  rw [← Layout.write_eq_render]
  refine ⟨_, hregular.read_write, hregular.shows.write_eq id, ?_⟩
  intro edits hascii
  rw [← Layout.write_eq_render, write, layout_edit, toJson_edit edits (by exact hsound)]
  exact hregular.shows.write_eq hascii

/-- A notebook's value with a code cell that is still empty. -/
def blank : Json :=
  .object [(cellsKey, .array [.object [(kindKey, .string codeKind), (sourceKey, .array [])]]),
    ("nbformat".toList, .number ⟨false, ['4'], [], none⟩)]

/-- A layout with all that there is to be told. -/
def tabbed : Layout := ⟨some ['\t'], .crlf, false, true, true, true⟩

theorem isNotebook_blank : blank.IsNotebook where
  wellFormed := ⟨by decide, by decide, ⟨⟨by decide, by decide, trivial, trivial, trivial⟩, trivial⟩,
    ⟨by decide, by decide, fun _ he => (nomatch he)⟩, trivial⟩
  depth_le := by decide
  cells := ⟨_, _, rfl, rfl, List.forall_mem_singleton.mpr (.code rfl rfl (.lines []))⟩

/-- Its empty list of fragments stands in brackets on one line, and on lines of its own once there
is a source. -/
theorem read_render_of_blank :
    ∃ n, read (tabbed.render blank) = .ok n ∧ n.write = tabbed.render blank ∧
      (n.edit [(0, "x = 1".toList)]).write =
        ("\uFEFF\x7b\r\n\t\"cells\": [\r\n\t\t\x7b\r\n\t\t\t\"cell_type\": \"code\",\r\n" ++
          "\t\t\t\"source\": [\r\n\t\t\t\t\"x = 1\"\r\n\t\t\t]\r\n\t\t\x7d\r\n\t],\r\n" ++
          "\t\"nbformat\": 4\r\n\x7d\r\n").toList := by
  have hl : tabbed.WellFormed := by
    refine ⟨fun indent hindent c hc => Or.inr ?_, fun _ => rfl⟩
    rw [← Option.some.inj hindent] at hc
    exact List.mem_singleton.mp hc
  obtain ⟨n, hread, hwrite, hedit⟩ := read_render hl isNotebook_blank
  refine ⟨n, hread, hwrite, ?_⟩
  have hascii : ∀ edit ∈ [(0, "x = 1".toList)], ∀ c ∈ edit.2, c.toNat < 0x80 := by
    intro edit hmem
    rw [List.mem_singleton.mp hmem]
    exact List.forall_iff_forall_mem.mp (by decide)
  rw [hedit _ (Json.ascii_edit hascii)]
  rfl

end Notebook
end NotebookTidy
