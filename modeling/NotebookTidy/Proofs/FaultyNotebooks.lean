import NotebookTidy.Proofs.TextPieces
import NotebookTidy.Proofs.RenderedNotebooks
import NotebookTidy.Proofs.SpelledTokens

/-!
# Documents that are no notebooks

A document is refused because it holds no value, or because its value is no notebook.  In the
second case the value has a fault, and which one is said without the reader (`Json.HasFault`): it
is the first one in the order in which a value is looked at, which is the value itself, its cells
one after the other, and of a cell its type, its kind, its source and the lines of the source.

`Notebook.read` finds the fault that a value has and no other (`Notebook.ofJson_eq_error_iff`), so
documents are told apart by what they hold (`Notebook.read_classified`).  The message of a refused
document tells its fault: no two faults of values have the same message.
-/

namespace NotebookTidy

/-! ## Faults of values -/

namespace Json

/-- **The fault in the source of a code cell**, the first one that there is. -/
inductive HasSourceFault (members : Members) : CellFault → Prop
  | noSource (missing : Members.get? sourceKey members = none) : HasSourceFault members .noSource
  | badSource {value : Json} (found : Members.get? sourceKey members = some value)
      (noText : ∀ t, value ≠ .string t) (noList : ∀ items, value ≠ .array items) :
      HasSourceFault members (.badSource value)
  | badLine {lines : List Text} {value : Json} {rest : List Json}
      (found : Members.get? sourceKey members =
        some (.array (lines.map .string ++ value :: rest)))
      (noText : ∀ t, value ≠ .string t) : HasSourceFault members (.badLine value)

/-- **The fault of a value that should be a cell**, the first one that there is: in its type, in its
kind, and in its source if it is of the kind of code cells. -/
inductive HasCellFault : Json → CellFault → Prop
  | notAnObject {v : Json} (noObject : ∀ members, v ≠ .object members) :
      HasCellFault v .notAnObject
  | noKind {members : Members} (missing : Members.get? kindKey members = none) :
      HasCellFault (.object members) .noKind
  | badKind {members : Members} {value : Json} (found : Members.get? kindKey members = some value)
      (noText : ∀ t, value ≠ .string t) : HasCellFault (.object members) (.badKind value)
  | source {members : Members} {fault : CellFault}
      (kind : Members.get? kindKey members = some (.string codeKind))
      (faulty : HasSourceFault members fault) : HasCellFault (.object members) fault

/-- **The fault of a value that should be a notebook**, the first one that there is: in its type, in
its list of cells, and in the first of the cells that has one. -/
inductive HasFault : Json → StructureFault → Prop
  | notAnObject {v : Json} (noObject : ∀ members, v ≠ .object members) : HasFault v .notAnObject
  | noCells {members : Members} (missing : Members.get? cellsKey members = none) :
      HasFault (.object members) .noCells
  | cellsNotAList {members : Members} {value : Json}
      (found : Members.get? cellsKey members = some value)
      (noList : ∀ items, value ≠ .array items) : HasFault (.object members) .cellsNotAList
  | cell {members : Members} {before : List Json} {v : Json} {rest : List Json} {fault : CellFault}
      (found : Members.get? cellsKey members = some (.array (before ++ v :: rest)))
      (sound : ∀ cell ∈ before, cell.IsCell) (faulty : v.HasCellFault fault) :
      HasFault (.object members) (.cell before.length fault)

end Json

/-! ## Faults that are found -/

namespace CodeCell

/-- Lines are refused for the first of them that is not a text. -/
theorem fragmentsOf_eq_error_iff {values : List Json} {fault : CellFault} :
    fragmentsOf values = .error fault ↔ ∃ (lines : List Text) (value : Json) (rest : List Json),
      values = lines.map .string ++ value :: rest ∧ (∀ t, value ≠ .string t) ∧
        fault = .badLine value := by
  constructor
  · intro h
    induction values with
    | nil => cases h
    | cons v rest ih =>
      cases v with
      | string line =>
        obtain ⟨lines, value, after, rfl, hother, rfl⟩ := ih (map_eq_error_iff.mp h)
        exact ⟨line :: lines, value, after, rfl, hother, rfl⟩
      | _ =>
        cases h
        exact ⟨[], _, rest, rfl, by rintro _ ⟨⟩, rfl⟩
  · rintro ⟨lines, value, rest, rfl, hother, rfl⟩
    induction lines with
    | nil =>
      cases value with
      | string t => exact absurd rfl (hother t)
      | _ => rfl
    | cons line lines ih => exact map_eq_error_iff.mpr ih

/-- A code cell is refused for the fault in its source. -/
theorem ofMembers_eq_error_iff {members : Members} {fault : CellFault} :
    ofMembers members = .error fault ↔ Json.HasSourceFault members fault := by
  have hget := Members.get?_eq_split? sourceKey members
  rcases hsplit : Members.split? sourceKey members with - | ⟨before, source, after⟩ <;>
    simp only [hsplit, Option.map_none, Option.map_some] at hget
  · rw [ofMembers, hsplit]
    constructor
    · intro h
      cases h
      exact .noSource hget
    · intro h
      cases h with
      | noSource missing => rfl
      | badSource found | badLine found => cases hget.symm.trans found
  · rw [ofMembers, hsplit]
    refine map_eq_error_iff.trans ⟨?_, ?_⟩
    · intro h
      cases source with
      | string t => cases h
      | array values =>
        obtain ⟨lines, value, rest, rfl, hother, rfl⟩ :=
          fragmentsOf_eq_error_iff.mp (map_eq_error_iff.mp h)
        exact .badLine hget hother
      | _ =>
        cases h
        exact .badSource hget (by rintro _ ⟨⟩) (by rintro _ ⟨⟩)
    · intro h
      cases h with
      | noSource missing => cases hget.symm.trans missing
      | @badSource value found noText noList =>
        cases hget.symm.trans found
        cases source with
        | string t => exact absurd rfl (noText t)
        | array items => exact absurd rfl (noList items)
        | _ => rfl
      | @badLine lines value rest found noText =>
        cases hget.symm.trans found
        apply map_eq_error_iff.mpr
        exact fragmentsOf_eq_error_iff.mpr ⟨lines, value, rest, rfl, noText, rfl⟩

end CodeCell

namespace Cell

/-- The values that are cells are those that are accepted as cells. -/
theorem isCell_iff {v : Json} : v.IsCell ↔ ∃ cell, ofJson v = .ok cell := by
  constructor
  · exact exists_ofJson
  · rintro ⟨cell, hcell⟩
    obtain ⟨rfl, hsound⟩ := of_ofJson hcell
    exact isCell_toJson hsound

/-- A value is refused as a cell for the fault that it has. -/
theorem ofJson_eq_error_iff {v : Json} {fault : CellFault} :
    ofJson v = .error fault ↔ v.HasCellFault fault := by
  constructor
  · intro h
    cases v with
    | object members =>
      rcases hkind : Members.get? kindKey members with - | kind
      · simp only [ofJson, hkind, Except.error.injEq] at h
        exact h ▸ .noKind hkind
      · cases kind with
        | string kind =>
          by_cases hcode : kind = codeKind
          · subst hcode
            simp only [ofJson, hkind, if_true] at h
            exact .source hkind (CodeCell.ofMembers_eq_error_iff.mp (map_eq_error_iff.mp h))
          · simp [ofJson, hkind, hcode] at h
        | _ =>
          simp only [ofJson, hkind, Except.error.injEq] at h
          exact h ▸ .badKind hkind (by rintro _ ⟨⟩)
    | _ =>
      cases h
      exact .notAnObject (by rintro _ ⟨⟩)
  · intro h
    cases h with
    | notAnObject noObject =>
      cases v with
      | object members => exact absurd rfl (noObject members)
      | _ => rfl
    | noKind missing => simp [ofJson, missing]
    | @badKind members value found noText =>
      cases value with
      | string t => exact absurd rfl (noText t)
      | _ => simp [ofJson, found]
    | source kind faulty =>
      simp only [ofJson, kind, if_true]
      exact map_eq_error_iff.mpr (CodeCell.ofMembers_eq_error_iff.mpr faulty)

/-- Cells are refused for the first of them that has a fault. -/
theorem ofList_eq_error_iff {index : Nat} {values : List Json} {fault : StructureFault} :
    ofList index values = .error fault ↔ ∃ before v rest fault',
      values = before ++ v :: rest ∧ (∀ cell ∈ before, cell.IsCell) ∧ v.HasCellFault fault' ∧
        fault = .cell (index + before.length) fault' := by
  constructor
  · intro h
    induction values generalizing index with
    | nil => cases h
    | cons v rest ih =>
      rcases hv : ofJson v with fault' | cell
      · simp only [ofList, hv, Except.error.injEq] at h
        exact ⟨[], v, rest, fault', rfl, by simp, ofJson_eq_error_iff.mp hv, h.symm⟩
      · simp only [ofList, hv] at h
        obtain ⟨before, w, after, fault', rfl, hsound, hfaulty, rfl⟩ := ih (map_eq_error_iff.mp h)
        refine ⟨v :: before, w, after, fault', rfl, ?_, hfaulty, ?_⟩
        · exact List.forall_mem_cons.mpr ⟨isCell_iff.mpr ⟨cell, hv⟩, hsound⟩
        · rw [List.length_cons, Nat.add_assoc, Nat.add_comm 1]
  · rintro ⟨before, v, rest, fault', rfl, hsound, hfaulty, rfl⟩
    induction before generalizing index with
    | nil => simp [ofList, ofJson_eq_error_iff.mpr hfaulty]
    | cons first before ih =>
      obtain ⟨hfirst, hbefore⟩ := List.forall_mem_cons.mp hsound
      obtain ⟨cell, hcell⟩ := isCell_iff.mp hfirst
      rw [List.cons_append, ofList, hcell, List.length_cons, Nat.add_comm before.length,
        ← Nat.add_assoc]
      exact map_eq_error_iff.mpr (ih hbefore)

end Cell

namespace Notebook

/-- **A value is refused as a notebook for the fault that it has.** -/
theorem ofJson_eq_error_iff {l : Layout} {v : Json} {fault : StructureFault} :
    ofJson l v = .error fault ↔ v.HasFault fault := by
  cases v with
  | object members =>
    have hget := Members.get?_eq_split? cellsKey members
    rcases hsplit : Members.split? cellsKey members with - | ⟨before, value, after⟩ <;>
      simp only [hsplit, Option.map_none, Option.map_some] at hget
    · rw [ofJson, hsplit]
      constructor
      · intro h
        cases h
        exact .noCells hget
      · intro h
        cases h with
        | notAnObject noObject => exact absurd rfl (noObject members)
        | noCells missing => rfl
        | cellsNotAList found | cell found => cases hget.symm.trans found
    · constructor
      · intro h
        cases value with
        | array values =>
          simp only [ofJson, hsplit] at h
          obtain ⟨first, v, rest, fault', rfl, hsound, hfaulty, rfl⟩ :=
            Cell.ofList_eq_error_iff.mp (map_eq_error_iff.mp h)
          rw [Nat.zero_add]
          exact .cell hget hsound hfaulty
        | _ =>
          simp only [ofJson, hsplit, Except.error.injEq] at h
          exact h ▸ .cellsNotAList hget (by rintro _ ⟨⟩)
      · intro h
        cases h with
        | notAnObject noObject => exact absurd rfl (noObject members)
        | noCells missing => cases hget.symm.trans missing
        | cellsNotAList found noList =>
          cases hget.symm.trans found
          cases value with
          | array values => exact absurd rfl (noList values)
          | _ => simp [ofJson, hsplit]
        | @cell _ first v rest fault found sound faulty =>
          cases hget.symm.trans found
          simp only [ofJson, hsplit]
          apply map_eq_error_iff.mpr
          apply Cell.ofList_eq_error_iff.mpr
          exact ⟨first, v, rest, fault, rfl, sound, faulty, by rw [Nat.zero_add]⟩
  | _ =>
    constructor
    · intro h
      cases h
      exact .notAnObject (by rintro _ ⟨⟩)
    · intro h
      cases h with
      | notAnObject noObject => rfl

/-- The second cell has the first fault, although the third is not even an object. -/
example :
    ofJson .compact (.object [(cellsKey, .array [
      .object [(kindKey, .string codeKind), (sourceKey, .array [])],
      .object [(kindKey, .string codeKind), (sourceKey, .array [.string ['x'], .null])],
      .null])]) = .error (.cell 1 (.badLine .null)) := by
  rfl

end Notebook

/-! ## What messages tell -/

namespace Json

/-- The value is one that documents have. -/
def Readable (v : Json) : Prop := v.WellFormed ∧ v.depth ≤ nestingLimit

/-- **The text of a value without blanks tells the value.** -/
theorem Readable.eq_of_compact {v w : Json} (hv : v.Readable) (hw : w.Readable)
    (h : v.compact = w.compact) : v = w := by
  have hcompact : Layout.compact.WellFormed := ⟨fun _ hindent => (nomatch hindent), fun _ => rfl⟩
  have hread {u : Json} (hu : u.Readable) : read? u.compact = some u := by
    rw [compact, ← Layout.write_eq_render, Layout.write_eq_mark_body]
    exact Layout.read?_body hcompact hu.1 hu.2
  have hsome : some v = some w := by rw [← hread hv, ← hread hw, h]
  exact Option.some.inj hsome

theorem Readable.of_get? {members : Members} {key : Text} {v : Json}
    (h : (Json.object members).Readable) (hv : Members.get? key members = some v) :
    v.Readable := by
  obtain ⟨⟨-, -, hwellFormed⟩, hdepth⟩ := h
  simp only [depth] at hdepth
  induction members with
  | nil => cases hv
  | cons m rest ih =>
    obtain ⟨k, w⟩ := m
    simp only [depthMembers] at hdepth
    rw [Members.get?] at hv
    split at hv
    · cases hv
      exact ⟨hwellFormed.1, by omega⟩
    · exact ih hv (by omega) hwellFormed.2

theorem Readable.of_mem {items : List Json} {v : Json} (h : (Json.array items).Readable)
    (hv : v ∈ items) : v.Readable := by
  obtain ⟨hwellFormed, hdepth⟩ := h
  simp only [WellFormed, depth] at hwellFormed hdepth
  induction items with
  | nil => cases hv
  | cons w rest ih =>
    simp only [depthItems] at hdepth
    rcases List.mem_cons.mp hv with rfl | hv
    · exact ⟨hwellFormed.1, by omega⟩
    · exact ih hv hwellFormed.2 (by omega)

end Json

namespace CellFault

/-- The value that a fault is about, if its message has it. -/
def value? : CellFault → Option Json
  | .badKind value | .badLine value | .badSource value => some value
  | .notAnObject | .noKind | .noSource => none

/-- What the message of a fault says before the index of the cell. -/
def label : CellFault → Text
  | .notAnObject | .noKind | .badKind _ => "cell ".toList
  | .noSource | .badLine _ | .badSource _ => "code cell ".toList

/-- What the message of a fault says after the index of the cell. -/
def words : CellFault → Text
  | .notAnObject => " is not a JSON object".toList
  | .noKind => " has no `cell_type` field".toList
  | .badKind v => " has an invalid `cell_type`: ".toList ++ v.compact
  | .noSource => " has no `source` field".toList
  | .badLine v => " has a non-string source line: ".toList ++ v.compact
  | .badSource v => " has an invalid `source` field: ".toList ++ v.compact

/-- Three letters that tell the form of a fault: one of the label, and two of the words. -/
def letters : CellFault → Char × Char × Char
  | .notAnObject => ('e', 'o', 't')
  | .noKind => ('e', 'n', 'o')
  | .badKind _ => ('e', 'a', 'n')
  | .noSource => ('o', 'n', 'o')
  | .badLine _ => ('o', 'a', ' ')
  | .badSource _ => ('o', 'a', 'n')

theorem message_eq (index : Nat) (fault : CellFault) :
    fault.message index = fault.label ++ Decimal.write index ++ fault.words := by
  cases fault with
  | notAnObject | noKind | noSource => rfl
  | badKind v | badLine v | badSource v => exact List.append_assoc _ _ _

theorem message_second (index : Nat) (fault : CellFault) :
    (fault.message index)[1]? = some fault.letters.1 := by
  cases fault <;> rfl

theorem label_eq (fault : CellFault) :
    fault.label = if fault.letters.1 = 'e' then "cell ".toList else "code cell ".toList := by
  cases fault <;> rfl

theorem words_sixth (fault : CellFault) : fault.words[5]? = some fault.letters.2.1 := by
  cases fault <;> rfl

theorem words_seventh (fault : CellFault) : fault.words[6]? = some fault.letters.2.2 := by
  cases fault <;> rfl

theorem exists_words (fault : CellFault) : ∃ rest, fault.words = ' ' :: rest := by
  cases fault <;> exact ⟨_, rfl⟩

/-- The label and the words of a message tell the fault, if the value that it shows is readable. -/
theorem eq_of_words {f g : CellFault} (hf : ∀ v ∈ f.value?, v.Readable)
    (hg : ∀ v ∈ g.value?, v.Readable) (hlabel : f.letters.1 = g.letters.1)
    (hwords : f.words = g.words) : f = g := by
  have hsixth : f.letters.2.1 = g.letters.2.1 :=
    Option.some.inj (by rw [← words_sixth, ← words_sixth, hwords])
  have hseventh : f.letters.2.2 = g.letters.2.2 :=
    Option.some.inj (by rw [← words_seventh, ← words_seventh, hwords])
  have hletters : f.letters = g.letters := Prod.ext hlabel (Prod.ext hsixth hseventh)
  cases f with
  | notAnObject =>
    cases g with
    | notAnObject => rfl
    | _ => cases hletters
  | noKind =>
    cases g with
    | noKind => rfl
    | _ => cases hletters
  | badKind v =>
    cases g with
    | badKind w => rw [(hf v rfl).eq_of_compact (hg w rfl) (List.append_cancel_left hwords)]
    | _ => cases hletters
  | noSource =>
    cases g with
    | noSource => rfl
    | _ => cases hletters
  | badLine v =>
    cases g with
    | badLine w => rw [(hf v rfl).eq_of_compact (hg w rfl) (List.append_cancel_left hwords)]
    | _ => cases hletters
  | badSource v =>
    cases g with
    | badSource w => rw [(hf v rfl).eq_of_compact (hg w rfl) (List.append_cancel_left hwords)]
    | _ => cases hletters

/-- **The message of a cell's fault tells the index of the cell and the fault.** -/
theorem eq_of_message {i j : Nat} {f g : CellFault} (hf : ∀ v ∈ f.value?, v.Readable)
    (hg : ∀ v ∈ g.value?, v.Readable) (h : f.message i = g.message j) : i = j ∧ f = g := by
  have hsecond : f.letters.1 = g.letters.1 :=
    Option.some.inj (by rw [← message_second i, ← message_second j, h])
  have hlabel : f.label = g.label := by rw [label_eq, label_eq, hsecond]
  have hrest : Decimal.write i ++ f.words = Decimal.write j ++ g.words := by
    rw [message_eq, message_eq, hlabel, List.append_assoc, List.append_assoc] at h
    exact List.append_cancel_left h
  -- The words start with a blank, so the numeral ends where they start.
  obtain ⟨a, ha⟩ := f.exists_words
  obtain ⟨b, hb⟩ := g.exists_words
  rw [ha, hb] at hrest
  obtain ⟨hindex, hwords⟩ := Decimal.eq_of_write_append (by decide) hrest
  exact ⟨hindex, eq_of_words hf hg hsecond (by rw [ha, hb, hwords])⟩

end CellFault

namespace Json

theorem HasSourceFault.readable {members : Members} {fault : CellFault}
    (h : HasSourceFault members fault) (hmembers : (Json.object members).Readable) :
    ∀ v ∈ fault.value?, v.Readable := by
  intro v hv
  cases h with
  | noSource missing => cases hv
  | badSource found noText noList =>
    cases hv
    exact hmembers.of_get? found
  | badLine found noText =>
    cases hv
    exact (hmembers.of_get? found).of_mem (List.mem_append_right _ (List.mem_cons_self ..))

theorem HasCellFault.readable {cell : Json} {fault : CellFault} (h : cell.HasCellFault fault)
    (hcell : cell.Readable) : ∀ v ∈ fault.value?, v.Readable := by
  cases h with
  | notAnObject noObject => exact nofun
  | noKind missing => exact nofun
  | badKind found noText =>
    rintro v ⟨⟩
    exact hcell.of_get? found
  | source kind faulty => exact faulty.readable hcell

end Json

namespace StructureFault

/-- The first letter of the message of a fault. -/
def initial? : StructureFault → Option Char
  | .notAnObject => some 't'
  | .noCells => some 'n'
  | .cellsNotAList => some '`'
  | .cell _ _ => some 'c'
  | .described t => t.head?

theorem head?_message (fault : StructureFault) : fault.message.head? = fault.initial? := by
  cases fault with
  | cell index fault => cases fault <;> rfl
  | _ => rfl

/-- The message of a fault in a cell names the cell by its index. -/
theorem message_cell (index : Nat) (fault : CellFault) : ∃ before after,
    (StructureFault.cell index fault).message =
      before ++ "cell ".toList ++ Decimal.write index ++ ' ' :: after := by
  obtain ⟨before, hbefore⟩ : ∃ before, fault.label = before ++ "cell ".toList := by
    cases fault with
    | notAnObject | noKind | badKind _ => exact ⟨[], rfl⟩
    | noSource | badLine _ | badSource _ => exact ⟨"code ".toList, rfl⟩
  obtain ⟨after, hafter⟩ := fault.exists_words
  refine ⟨before, after, ?_⟩
  change fault.message index = _
  rw [fault.message_eq, hbefore, hafter]

end StructureFault

/-- **The message of a value's fault tells the fault.** -/
theorem Json.HasFault.eq_of_message {v w : Json} {f g : StructureFault} (hv : v.Readable)
    (hw : w.Readable) (hf : v.HasFault f) (hg : w.HasFault g) (h : f.message = g.message) :
    f = g := by
  have hinitial : f.initial? = g.initial? := by
    rw [← f.head?_message, ← g.head?_message, h]
  cases hf with
  | notAnObject noObject =>
    cases hg with
    | notAnObject => rfl
    | _ => cases hinitial
  | noCells missing =>
    cases hg with
    | noCells => rfl
    | _ => cases hinitial
  | cellsNotAList found noList =>
    cases hg with
    | cellsNotAList => rfl
    | _ => cases hinitial
  | cell found sound faulty =>
    cases hg with
    | cell found' sound' faulty' =>
      have hcell := (hv.of_get? found).of_mem (List.mem_append_right _ (List.mem_cons_self ..))
      have hcell' := (hw.of_get? found').of_mem (List.mem_append_right _ (List.mem_cons_self ..))
      obtain ⟨hindex, hfault⟩ :=
        CellFault.eq_of_message (faulty.readable hcell) (faulty'.readable hcell') h
      rw [hindex, hfault]
    | _ => cases hinitial

/-! ## What documents hold -/

namespace Notebook

/-- **The document holds the value**, after a byte order mark or without one. -/
def Holds (document : Text) (v : Json) : Prop :=
  ∃ text, (document = text ∨ document = Layout.markChar :: text) ∧ Json.read? text = some v

/-- A text with a value starts with no byte order mark, so at most one can stand before it. -/
theorem holds_iff {document : Text} {v : Json} :
    Holds document v ↔ Json.read? (withoutMark document) = some v := by
  constructor
  · rintro ⟨text, rfl | rfl, hread⟩
    · obtain ⟨tokens, htokens, -⟩ := Option.bind_eq_some_iff.mp hread
      have hmark := (Token.spells_of_ofText? htokens).head?_ne_mark
      cases document with
      | nil => exact hread
      | cons c rest =>
        rwa [withoutMark, if_neg]
        rintro rfl
        exact hmark rfl
    · rwa [withoutMark, if_pos rfl]
  · intro hread
    refine ⟨_, ?_, hread⟩
    cases document with
    | nil => exact .inl rfl
    | cons c rest =>
      by_cases hmark : c = Layout.markChar
      · rw [withoutMark, if_pos hmark, hmark]
        exact .inr rfl
      · rw [withoutMark, if_neg hmark]
        exact .inl rfl

theorem Holds.readable {document : Text} {v : Json} (h : Holds document v) : v.Readable := by
  obtain ⟨text, -, hread⟩ := h
  exact Json.wellFormed_of_read? hread

/-- A document that holds a value is read as this value is. -/
theorem Holds.read_eq {document : Text} {v : Json} (h : Holds document v) :
    read document = (ofJson (Layout.detect document) v).mapError .structural := by
  rw [read, holds_iff.mp h]

/-- A document that holds a value is refused for the fault of this value, and for nothing else. -/
theorem Holds.read_eq_error_iff {document : Text} {v : Json} (h : Holds document v)
    {error : NotebookError} :
    read document = .error error ↔ ∃ fault, v.HasFault fault ∧ error = .structural fault := by
  rw [h.read_eq]
  constructor
  · intro herror
    cases hn : ofJson (Layout.detect document) v with
    | ok n =>
      rw [hn] at herror
      cases herror
    | error fault =>
      rw [hn] at herror
      cases herror
      exact ⟨fault, ofJson_eq_error_iff.mp hn, rfl⟩
  · rintro ⟨fault, hfault, rfl⟩
    rw [ofJson_eq_error_iff.mpr hfault]
    rfl

/-- **A document is refused as no value** if and only if it holds none. -/
theorem read_eq_syntaxError_iff {document : Text} :
    read document = .error .syntaxError ↔ ∀ v, ¬ Holds document v := by
  constructor
  · intro h v hholds
    obtain ⟨fault, -, herror⟩ := hholds.read_eq_error_iff.mp h
    cases herror
  · intro h
    rcases hvalue : Json.read? (withoutMark document) with - | v
    · rw [read, hvalue]
    · exact absurd (holds_iff.mpr hvalue) (h v)

/-- A document that is refused holds no value, or one with a fault. -/
theorem read_eq_error {document : Text} {error : NotebookError} (h : read document = .error error) :
    error = .syntaxError ∨
      ∃ v fault, Holds document v ∧ v.HasFault fault ∧ error = .structural fault := by
  rcases hvalue : Json.read? (withoutMark document) with - | v
  · rw [read, hvalue] at h
    cases h
    exact .inl rfl
  · have hholds := holds_iff.mpr hvalue
    obtain ⟨fault, hfault, rfl⟩ := hholds.read_eq_error_iff.mp h
    exact .inr ⟨v, fault, hholds, hfault, rfl⟩

/-- **A document is refused as no notebook for the fault of the value that it holds.** -/
theorem read_eq_structural_iff {document : Text} {fault : StructureFault} :
    read document = .error (.structural fault) ↔ ∃ v, Holds document v ∧ v.HasFault fault := by
  constructor
  · intro h
    obtain hsyntax | ⟨v, fault, hholds, hfault, ⟨⟩⟩ := read_eq_error h
    · cases hsyntax
    · exact ⟨v, hholds, hfault⟩
  · rintro ⟨v, hholds, hfault⟩
    exact hholds.read_eq_error_iff.mpr ⟨fault, hfault, rfl⟩

/-- A document is accepted if its value is an object with a list of cells. -/
theorem exists_read_iff {document : Text} :
    (∃ n, read document = .ok n) ↔ ∃ members cells, Holds document (.object members) ∧
      Members.get? cellsKey members = some (.array cells) ∧ ∀ cell ∈ cells, cell.IsCell := by
  constructor
  · rintro ⟨n, hn⟩
    obtain ⟨members, cells, hvalue, hfound, hcells⟩ :=
      (isNotebook_iff.mpr ⟨document, n, hn, rfl⟩).cells
    have hholds := holds_iff.mpr (of_read hn).1
    exact ⟨members, cells, hvalue ▸ hholds, hfound, hcells⟩
  · rintro ⟨members, cells, hholds, hfound, hcells⟩
    have hreadable := hholds.readable
    obtain ⟨n, hn⟩ := exists_ofJson (Layout.detect document)
      ⟨hreadable.1, hreadable.2, members, cells, rfl, hfound, hcells⟩
    exact ⟨n, by rw [hholds.read_eq, hn]; rfl⟩

/-- **Documents are told apart by what they hold.**  A document is accepted if and only if it holds
an object with a list of cells.  One that holds no value is refused as such, one that holds another
value is refused for the first fault of this value, and no document is refused for anything else.
The message of a fault in a cell has the index of the cell, and messages tell faults apart. -/
theorem read_classified (document : Text) :
    ((∃ n, read document = .ok n) ↔ ∃ members cells, Holds document (.object members) ∧
      Members.get? cellsKey members = some (.array cells) ∧ ∀ cell ∈ cells, cell.IsCell) ∧
    (read document = .error .syntaxError ↔ ∀ v, ¬ Holds document v) ∧
    (∀ fault, read document = .error (.structural fault) ↔
      ∃ v, Holds document v ∧ v.HasFault fault) ∧
    (∀ error, read document = .error error →
      error = .syntaxError ∨ ∃ fault, error = .structural fault) ∧
    (∀ index fault, ∃ before after, (NotebookError.structural (.cell index fault)).message =
      before ++ "cell ".toList ++ Decimal.write index ++ ' ' :: after) ∧
    ∀ other fault fault', read document = .error (.structural fault) →
      read other = .error (.structural fault') →
      (NotebookError.structural fault).message = (NotebookError.structural fault').message →
      fault = fault' := by
  refine ⟨exists_read_iff, read_eq_syntaxError_iff, fun fault => read_eq_structural_iff, ?_, ?_, ?_⟩
  · intro error herror
    obtain hsyntax | ⟨v, fault, -, -, hstructural⟩ := read_eq_error herror
    · exact .inl hsyntax
    · exact .inr ⟨fault, hstructural⟩
  · intro index fault
    obtain ⟨before, after, hmessage⟩ := StructureFault.message_cell index fault
    refine ⟨"Invalid notebook format: ".toList ++ before, after, ?_⟩
    change "Invalid notebook format: ".toList ++ StructureFault.message _ = _
    rw [hmessage]
    simp only [List.append_assoc]
  · intro other fault fault' hfault hfault' hmessage
    obtain ⟨v, hv, hfault⟩ := read_eq_structural_iff.mp hfault
    obtain ⟨w, hw, hfault'⟩ := read_eq_structural_iff.mp hfault'
    have hsame : fault.message = fault'.message := List.append_cancel_left hmessage
    exact hfault.eq_of_message hv.readable hw.readable hfault' hsame

end Notebook
end NotebookTidy
