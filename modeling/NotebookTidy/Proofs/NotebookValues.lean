import NotebookTidy.Notebook.Reader
import NotebookTidy.Proofs.DocumentRoundTrip
import NotebookTidy.Proofs.ReadValues

/-!
# Notebooks and their values

A notebook is read from a value by taking it apart, and `toJson` puts it together again; nothing
moves on the way (`Notebook.of_ofJson`).  What it means for the value of a notebook that its
code cells get other sources is said on values alone: `Json.replaceSources` goes through the list
under the key of the cells and replaces, in each object of the kind of code cells, what stands
under the key of the source, in the shape in which it stands there.  It leaves every key, every
other value and every order as they are, since it does nothing else.

Written and read again, such a notebook is the same notebook (`Notebook.read_write_setSources`).
-/

namespace NotebookTidy

/-! ## Members -/

namespace Members

/-- The members with the value of a key changed, where the key stands first. -/
def update (key : Text) (f : Json → Json) : Members → Members
  | [] => []
  | (k, v) :: rest => if k = key then (k, f v) :: rest else (k, v) :: update key f rest

variable {key : Text} {f : Json → Json}

theorem keys_update (key : Text) (f : Json → Json) (members : Members) :
    (update key f members).map Prod.fst = members.map Prod.fst := by
  induction members with
  | nil => rfl
  | cons m rest ih =>
    obtain ⟨k, v⟩ := m
    rw [update]
    split
    · rfl
    · rw [List.map_cons, List.map_cons, ih]

theorem get?_update_of_ne {other : Text} (h : key ≠ other) (members : Members) :
    get? other (update key f members) = get? other members := by
  induction members with
  | nil => rfl
  | cons m rest ih =>
    obtain ⟨k, v⟩ := m
    rw [update]
    by_cases hk : k = key
    · subst hk
      simp [get?, h]
    · simp [hk, get?, ih]

/-- What is changed stands where the members are split. -/
theorem update_append {before : Members} (h : key ∉ before.map Prod.fst) (v : Json)
    (after : Members) :
    update key f (before ++ (key, v) :: after) = before ++ (key, f v) :: after := by
  induction before with
  | nil => simp [update]
  | cons m rest ih =>
    obtain ⟨k, w⟩ := m
    simp only [List.map_cons, List.mem_cons, not_or] at h
    have hk : ¬ k = key := fun hk => h.1 hk.symm
    simp [update, hk, ih h.2]

theorem not_mem_of_split? {members before after : Members} {v : Json}
    (h : split? key members = some (before, v, after)) : key ∉ before.map Prod.fst := by
  induction members generalizing before with
  | nil => simp [split?] at h
  | cons m rest ih =>
    obtain ⟨k, w⟩ := m
    rw [split?] at h
    split at h
    · simp only [Option.some.injEq, Prod.mk.injEq] at h
      simp [← h.1]
    · next hk =>
      obtain ⟨⟨b, u, a⟩, hs, he⟩ := Option.map_eq_some_iff.mp h
      simp only [Prod.mk.injEq] at he
      obtain ⟨rfl, rfl, rfl⟩ := he
      simp only [List.map_cons, List.mem_cons, not_or]
      exact ⟨fun hkey => hk hkey.symm, ih hs⟩

theorem split?_append {before : Members} (h : key ∉ before.map Prod.fst) (v : Json)
    (after : Members) : split? key (before ++ (key, v) :: after) = some (before, v, after) := by
  induction before with
  | nil => simp [split?]
  | cons m rest ih =>
    obtain ⟨k, w⟩ := m
    simp only [List.map_cons, List.mem_cons, not_or] at h
    have hk : ¬ k = key := fun hk => h.1 hk.symm
    simp [split?, hk, ih h.2]

/-- The value of a key is the one that the members are split at. -/
theorem get?_eq_split? (key : Text) (members : Members) :
    get? key members = (split? key members).map fun (_, v, _) => v := by
  induction members with
  | nil => rfl
  | cons m rest ih =>
    obtain ⟨k, v⟩ := m
    rw [get?, split?]
    split
    · rfl
    · rw [ih, Option.map_map]
      rfl

theorem get?_append {before : Members} (h : key ∉ before.map Prod.fst) (v : Json)
    (after : Members) : get? key (before ++ (key, v) :: after) = some v := by
  rw [get?_eq_split?, split?_append h]
  rfl

theorem wellFormed_update (hf : ∀ v : Json, v.WellFormed → (f v).WellFormed) {members : Members}
    (h : Json.WellFormedMembers members) : Json.WellFormedMembers (update key f members) := by
  induction members with
  | nil => trivial
  | cons m rest ih =>
    obtain ⟨k, v⟩ := m
    rw [update]
    split
    · exact ⟨hf v h.1, h.2⟩
    · exact ⟨h.1, ih h.2⟩

theorem depth_update (hf : ∀ v : Json, (f v).depth ≤ v.depth) (members : Members) :
    Json.depthMembers (update key f members) ≤ Json.depthMembers members := by
  induction members with
  | nil => exact Nat.le_refl _
  | cons m rest ih =>
    obtain ⟨k, v⟩ := m
    have hv := hf v
    rw [update]
    split
    · simp only [Json.depthMembers]
      omega
    · simp only [Json.depthMembers]
      omega

end Members

/-! ## Sources in values -/

namespace Json

/-- A source with another text, in the shape that it has. -/
def setText (text : Text) : Json → Json
  | .array _ => .array ((Fragment.split text).map .string)
  | .string _ => .string text
  | v => v

/-- The value is a code cell. -/
def isCodeCell : Json → Bool
  | .object members => Members.get? kindKey members = some (.string codeKind)
  | _ => false

/-- A cell with another text as its source. -/
def setSource (text : Text) : Json → Json
  | .object members => .object (Members.update sourceKey (setText text) members)
  | v => v

/-- Cells with texts as the sources of the code cells, one after the other. -/
def setSources : List Text → List Json → List Json
  | [], cells => cells
  | _ :: _, [] => []
  | text :: texts, v :: rest =>
    if v.isCodeCell then v.setSource text :: setSources texts rest
    else v :: setSources (text :: texts) rest

/-- A list of cells with texts as the sources of the code cells. -/
def setCells (texts : List Text) : Json → Json
  | .array cells => .array (setSources texts cells)
  | v => v

/-- **A notebook's value with texts as the sources of its code cells**, one after the other. -/
def replaceSources (texts : List Text) : Json → Json
  | .object members => .object (Members.update cellsKey (setCells texts) members)
  | v => v

theorem wellFormedItems_strings (lines : List Text) : WellFormedItems (lines.map .string) := by
  induction lines with
  | nil => trivial
  | cons line rest ih => exact ⟨trivial, ih⟩

theorem depthItems_strings (lines : List Text) : depthItems (lines.map .string) = 0 := by
  induction lines with
  | nil => rfl
  | cons line rest ih => simp [depthItems, depth, ih]

theorem wellFormed_setText (text : Text) {v : Json} (h : v.WellFormed) :
    (v.setText text).WellFormed := by
  cases v with
  | array items => exact wellFormedItems_strings _
  | string t => trivial
  | _ => exact h

theorem depth_setText (text : Text) (v : Json) : (v.setText text).depth ≤ v.depth := by
  cases v with
  | array items =>
    simp only [setText, depth, depthItems_strings]
    omega
  | _ => exact Nat.le_refl _

theorem wellFormed_object {members : Members} {f : Json → Json} {key : Text}
    (hf : ∀ v : Json, v.WellFormed → (f v).WellFormed) (h : (Json.object members).WellFormed) :
    (Json.object (Members.update key f members)).WellFormed := by
  obtain ⟨hnodup, hfirst, hmembers⟩ := h
  refine ⟨?_, ?_, Members.wellFormed_update hf hmembers⟩
  · rw [Members.keys_update]
    exact hnodup
  · rw [Members.keys_update]
    exact hfirst

theorem wellFormed_setSource (text : Text) {v : Json} (h : v.WellFormed) :
    (v.setSource text).WellFormed := by
  cases v with
  | object members => exact wellFormed_object (fun _ => wellFormed_setText text) h
  | _ => exact h

theorem depth_setSource (text : Text) (v : Json) : (v.setSource text).depth ≤ v.depth := by
  cases v with
  | object members => exact Nat.succ_le_succ (Members.depth_update (depth_setText text) members)
  | _ => exact Nat.le_refl _

/-- **Cells of which any may have got another source**, of the texts that are allowed. -/
inductive Resourced (allowed : Text → Prop) : List Json → List Json → Prop
  | nil : Resourced allowed [] []
  /-- A cell is as it was. -/
  | kept (v : Json) {cells cells' : List Json} (rest : Resourced allowed cells cells') :
    Resourced allowed (v :: cells) (v :: cells')
  /-- A cell has got another source. -/
  | set (v : Json) {text : Text} (text_allowed : allowed text) {cells cells' : List Json}
    (rest : Resourced allowed cells cells') :
    Resourced allowed (v :: cells) (v.setSource text :: cells')

namespace Resourced
variable {allowed : Text → Prop} {cells cells' : List Json}

theorem refl (allowed : Text → Prop) (cells : List Json) : Resourced allowed cells cells := by
  induction cells with
  | nil => exact .nil
  | cons v rest ih => exact .kept v ih

theorem wellFormedItems (h : Resourced allowed cells cells') (hcells : WellFormedItems cells) :
    WellFormedItems cells' := by
  induction h with
  | nil => trivial
  | kept v rest ih => exact ⟨hcells.1, ih hcells.2⟩
  | set v text_allowed rest ih => exact ⟨wellFormed_setSource _ hcells.1, ih hcells.2⟩

theorem depthItems_le (h : Resourced allowed cells cells') :
    depthItems cells' ≤ depthItems cells := by
  induction h with
  | nil => exact Nat.le_refl _
  | kept v rest ih =>
    simp only [depthItems]
    omega
  | @set v text text_allowed cells cells' rest ih =>
    have hv := depth_setSource text v
    simp only [depthItems]
    omega

end Resourced

theorem resourced_setSources (texts : List Text) (cells : List Json) :
    Resourced (fun _ => True) cells (setSources texts cells) := by
  induction cells generalizing texts with
  | nil => cases texts <;> exact .nil
  | cons v rest ih =>
    cases texts with
    | nil => exact .refl _ _
    | cons text texts =>
      rw [setSources]
      split
      · exact .set v trivial (ih texts)
      · exact .kept v (ih _)

theorem wellFormed_replaceSources (texts : List Text) {v : Json} (h : v.WellFormed) :
    (v.replaceSources texts).WellFormed := by
  cases v with
  | object members =>
    refine wellFormed_object (fun v hv => ?_) h
    cases v with
    | array cells => exact (resourced_setSources texts cells).wellFormedItems hv
    | _ => exact hv
  | _ => exact h

theorem depth_replaceSources (texts : List Text) (v : Json) :
    (v.replaceSources texts).depth ≤ v.depth := by
  cases v with
  | object members =>
    refine Nat.succ_le_succ (Members.depth_update (fun v => ?_) members)
    cases v with
    | array cells => exact Nat.succ_le_succ (resourced_setSources texts cells).depthItems_le
    | _ => exact Nat.le_refl _
  | _ => exact Nat.le_refl _

end Json

/-! ## Notebooks from values -/

/-- **What reading makes sure of in a cell**: it is of the kind that its value says, and the source
of a code cell is the first of its members with that key. -/
def Cell.Sound : Cell → Prop
  | .code c =>
    sourceKey ∉ c.before.map Prod.fst ∧ Members.get? kindKey c.members = some (.string codeKind)
  | .other members =>
    ∃ kind, Members.get? kindKey members = some (.string kind) ∧ kind ≠ codeKind

/-- What reading makes sure of in a notebook. -/
def Notebook.Sound (n : Notebook) : Prop :=
  cellsKey ∉ n.before.map Prod.fst ∧ ∀ cell ∈ n.cells, cell.Sound

/-- Cells with texts as the sources of the code cells, one after the other. -/
def Cell.setSources : List Text → List Cell → List Cell
  | [], cells => cells
  | _ :: _, [] => []
  | text :: texts, .other members :: rest => .other members :: setSources (text :: texts) rest
  | text :: texts, .code c :: rest => .code (c.setSource text) :: setSources texts rest

/-- What is made of a result fails as the result does. -/
theorem map_eq_error_iff {ε α β : Type} {f : α → β} {result : Except ε α} {error : ε} :
    result.map f = .error error ↔ result = .error error := by
  cases result <;> simp [Except.map]

namespace CodeCell

theorem fragmentsOf_strings (lines : List Text) :
    fragmentsOf (lines.map .string) = .ok lines := by
  induction lines with
  | nil => rfl
  | cons line rest ih => simp [fragmentsOf, ih, Except.map]

theorem strings_of_fragmentsOf {values : List Json} {lines : List Text}
    (h : fragmentsOf values = .ok lines) : values = lines.map .string := by
  induction values generalizing lines with
  | nil =>
    cases h
    rfl
  | cons v rest ih =>
    cases v with
    | string line =>
      rcases hrest : fragmentsOf rest with fault | others
      · simp [fragmentsOf, hrest, Except.map] at h
      · simp only [fragmentsOf, hrest, Except.map, Except.ok.injEq] at h
        rw [← h, List.map_cons, ih hrest]
    | _ => cases h

/-- A source that was read is stored as it was. -/
theorem sourceValue_of_sourceOf {v : Json} {shape : SourceForm} {fragments : List Text}
    (h : sourceOf v = .ok (shape, fragments)) (before after : Members) :
    (CodeCell.mk before shape fragments after).sourceValue = v := by
  cases v with
  | string t =>
    cases h
    exact congrArg Json.string (Fragment.join_split t)
  | array lines =>
    rcases hlines : fragmentsOf lines with fault | others
    · simp [sourceOf, hlines, Except.map] at h
    · simp only [sourceOf, hlines, Except.map, Except.ok.injEq, Prod.mk.injEq] at h
      obtain ⟨rfl, rfl⟩ := h
      exact congrArg Json.array (strings_of_fragmentsOf hlines).symm
  | _ => cases h

/-- A source is read as it is stored; one that is stored as a text is read in the fragments of the
text. -/
theorem sourceOf_sourceValue {c : CodeCell}
    (h : c.shape = .text → Fragment.split c.source = c.fragments) :
    sourceOf c.sourceValue = .ok (c.shape, c.fragments) := by
  obtain ⟨before, shape, fragments, after⟩ := c
  cases shape with
  | lines =>
    change (fragmentsOf (fragments.map .string)).map _ = _
    rw [fragmentsOf_strings]
    rfl
  | text =>
    change Except.ok (SourceForm.text, Fragment.split (Fragment.join fragments)) = _
    rw [show Fragment.split (Fragment.join fragments) = fragments from h rfl]

theorem sourceValue_setSource (text : Text) (c : CodeCell) :
    (c.setSource text).sourceValue = c.sourceValue.setText text := by
  obtain ⟨before, shape, fragments, after⟩ := c
  cases shape with
  | lines => rfl
  | text => exact congrArg Json.string (Fragment.join_split text)

/-- The members of a cell with another source are those of the cell, the source replaced. -/
theorem members_setSource (text : Text) {c : CodeCell} (h : sourceKey ∉ c.before.map Prod.fst) :
    (c.setSource text).members = Members.update sourceKey (Json.setText text) c.members := by
  rw [members, sourceValue_setSource]
  exact (Members.update_append h _ _).symm

end CodeCell

namespace Cell

theorem Sound.setSource {c : CodeCell} (h : (Cell.code c).Sound) (text : Text) :
    (Cell.code (c.setSource text)).Sound := by
  refine ⟨h.1, ?_⟩
  rw [CodeCell.members_setSource text h.1, Members.get?_update_of_ne (by decide)]
  exact h.2

/-- **A cell is read without loss**, and what reading makes sure of is so. -/
theorem of_ofJson {v : Json} {cell : Cell} (h : ofJson v = .ok cell) :
    cell.toJson = v ∧ cell.Sound := by
  cases v with
  | object members =>
    rcases hkind : Members.get? kindKey members with - | v
    · simp [ofJson, hkind] at h
    · cases v with
      | string kind =>
        by_cases hcode : kind = codeKind
        · subst hcode
          rcases hsplit : Members.split? sourceKey members with - | ⟨before, source, after⟩
          · simp [ofJson, hkind, CodeCell.ofMembers, hsplit, Except.map] at h
          · rcases hsource : CodeCell.sourceOf source with fault | ⟨shape, fragments⟩
            · simp [ofJson, hkind, CodeCell.ofMembers, hsplit, hsource, Except.map] at h
            · simp only [ofJson, hkind, if_true, CodeCell.ofMembers, hsplit, hsource, Except.map,
                Except.ok.injEq] at h
              subst h
              -- the source goes back between the members that it was taken from
              have hmembers : (CodeCell.mk before shape fragments after).members = members := by
                rw [CodeCell.members, CodeCell.sourceValue_of_sourceOf hsource]
                exact (Members.eq_of_split? hsplit).symm
              exact ⟨congrArg Json.object hmembers, Members.not_mem_of_split? hsplit,
                hmembers.symm ▸ hkind⟩
        · simp only [ofJson, hkind, if_neg hcode, Except.ok.injEq] at h
          subst h
          exact ⟨rfl, kind, hkind, hcode⟩
      | _ => simp [ofJson, hkind] at h
  | _ => cases h

theorem isCodeCell_of_sound {c : CodeCell} (h : (Cell.code c).Sound) :
    (Cell.code c).toJson.isCodeCell = true := by
  simp [toJson, Json.isCodeCell, h.2]

theorem not_isCodeCell_of_sound {members : Members} (h : (Cell.other members).Sound) :
    (Cell.other members).toJson.isCodeCell = false := by
  obtain ⟨kind, hkind, hother⟩ := h
  simp [toJson, Json.isCodeCell, hkind, hother]

/-- **Setting sources of cells is setting them in their values.** -/
theorem toJson_setSources (texts : List Text) {cells : List Cell}
    (h : ∀ cell ∈ cells, cell.Sound) :
    (setSources texts cells).map toJson = Json.setSources texts (cells.map toJson) := by
  induction cells generalizing texts with
  | nil => cases texts <;> rfl
  | cons cell rest ih =>
    have hcell := h cell List.mem_cons_self
    have hrest := fun texts => ih texts fun other hother => h other (List.mem_cons_of_mem _ hother)
    cases texts with
    | nil => rfl
    | cons text texts =>
      cases cell with
      | code c =>
        have hsource : (Cell.code (c.setSource text)).toJson =
            (Cell.code c).toJson.setSource text :=
          congrArg Json.object (CodeCell.members_setSource text hcell.1)
        rw [setSources, List.map_cons, List.map_cons, Json.setSources,
          if_pos (isCodeCell_of_sound hcell), hsource, hrest]
      | other members =>
        rw [setSources, List.map_cons, List.map_cons, Json.setSources,
          if_neg (by rw [not_isCodeCell_of_sound hcell]; exact Bool.false_ne_true), hrest]

theorem setSources_other (texts : List Text) (members : Members) (rest : List Cell) :
    setSources texts (.other members :: rest) = .other members :: setSources texts rest := by
  cases texts with
  | nil => rw [setSources, setSources]
  | cons text texts => rw [setSources]

theorem Sound.setSources (texts : List Text) {cells : List Cell}
    (h : ∀ cell ∈ cells, cell.Sound) : ∀ cell ∈ Cell.setSources texts cells, cell.Sound := by
  induction cells generalizing texts with
  | nil => cases texts <;> exact h
  | cons cell rest ih =>
    have hcell := h cell List.mem_cons_self
    have hrest := fun texts => ih texts fun other hother => h other (List.mem_cons_of_mem _ hother)
    cases texts with
    | nil => exact h
    | cons text texts =>
      cases cell with
      | code c => exact List.forall_mem_cons.mpr ⟨Sound.setSource hcell text, hrest texts⟩
      | other members => exact List.forall_mem_cons.mpr ⟨hcell, hrest (text :: texts)⟩

/-- The fragments of a code cell are those of its text. -/
def Settled : Cell → Prop
  | .code c => Fragment.split c.source = c.fragments
  | .other _ => True

/-- Cells that have all got other sources are settled. -/
theorem settled_setSources {texts : List Text} {cells : List Cell}
    (h : texts.length = (cells.filterMap asCode?).length) :
    ∀ cell ∈ setSources texts cells, cell.Settled := by
  induction cells generalizing texts with
  | nil => cases texts <;> exact fun cell hcell => by cases hcell
  | cons cell rest ih =>
    cases cell with
    | code c =>
      cases texts with
      | nil => cases h
      | cons text texts =>
        have hlength : texts.length = (rest.filterMap asCode?).length := Nat.succ.inj h
        exact List.forall_mem_cons.mpr
          ⟨congrArg Fragment.split (Fragment.join_split text), ih hlength⟩
    | other members =>
      rw [setSources_other]
      exact List.forall_mem_cons.mpr ⟨trivial, ih h⟩

/-- **The fragments of a code cell can be told from how its source is stored**: a list is kept as it
is, but of a text only the fragments that it is cut into are. -/
def Stored : Cell → Prop
  | .code c => c.shape = .text → Fragment.split c.source = c.fragments
  | .other _ => True

theorem Settled.stored {cell : Cell} (h : cell.Settled) : cell.Stored := by
  cases cell with
  | code c => exact fun _ => h
  | other members => trivial

/-- The fragments of a cell that was read can be told from its value. -/
theorem stored_of_ofJson {v : Json} {cell : Cell} (h : ofJson v = .ok cell) : cell.Stored := by
  obtain ⟨rfl, hsound⟩ := of_ofJson h
  cases cell with
  | other members => trivial
  | code c =>
    -- the cell is what its own value is read as, and of a text only the fragments are read
    intro htext
    have hsource : c.sourceValue = .string c.source := by simp [CodeCell.sourceValue, htext]
    have hsplit : Members.split? sourceKey c.members = some (c.before, .string c.source, c.after) :=
      hsource ▸ Members.split?_append hsound.1 _ _
    simp only [toJson, ofJson, hsound.2, if_true, CodeCell.ofMembers, hsplit, CodeCell.sourceOf,
      Except.map, Except.ok.injEq, code.injEq] at h
    exact congrArg CodeCell.fragments h

/-- A cell is read as it was stored. -/
theorem ofJson_toJson {cell : Cell} (h : cell.Sound) (hstored : cell.Stored) :
    ofJson cell.toJson = .ok cell := by
  cases cell with
  | other members =>
    obtain ⟨kind, hkind, hother⟩ := h
    simp [toJson, ofJson, hkind, hother]
  | code c =>
    have hread := CodeCell.sourceOf_sourceValue hstored
    have hsplit : Members.split? sourceKey c.members = some (c.before, c.sourceValue, c.after) :=
      Members.split?_append h.1 _ _
    simp [toJson, ofJson, h.2, CodeCell.ofMembers, hsplit, hread, Except.map]

end Cell

namespace Notebook

theorem of_ofList {index : Nat} {values : List Json} {cells : List Cell}
    (h : Cell.ofList index values = .ok cells) :
    cells.map Cell.toJson = values ∧ (∀ cell ∈ cells, cell.Sound) ∧
      ∀ cell ∈ cells, cell.Stored := by
  induction values generalizing index cells with
  | nil =>
    cases h
    exact ⟨rfl, by simp, by simp⟩
  | cons v rest ih =>
    unfold Cell.ofList at h
    rcases hcell : Cell.ofJson v with fault | cell
    · simp [hcell] at h
    · rcases hrest : Cell.ofList (index + 1) rest with fault | others
      · simp [hcell, hrest, Except.map] at h
      · simp only [hcell, hrest, Except.map, Except.ok.injEq] at h
        subst h
        obtain ⟨hvalue, hsound⟩ := Cell.of_ofJson hcell
        obtain ⟨hvalues, hsounds, hstored⟩ := ih hrest
        exact ⟨by rw [List.map_cons, hvalue, hvalues], List.forall_mem_cons.mpr ⟨hsound, hsounds⟩,
          List.forall_mem_cons.mpr ⟨Cell.stored_of_ofJson hcell, hstored⟩⟩

/-- **A notebook is read without loss**: it has the value that it was read from. -/
theorem of_ofJson {layout : Layout} {v : Json} {n : Notebook} (h : ofJson layout v = .ok n) :
    n.toJson = v ∧ n.Sound ∧ (∀ cell ∈ n.cells, cell.Stored) ∧ n.layout = layout := by
  cases v with
  | object members =>
    unfold ofJson at h
    rcases hsplit : Members.split? cellsKey members with - | ⟨before, value, after⟩
    · simp [hsplit] at h
    · cases value with
      | array values =>
        rcases hcells : Cell.ofList 0 values with fault | cells
        · simp [hsplit, hcells, Except.map] at h
        · simp only [hsplit, hcells, Except.map, Except.ok.injEq] at h
          subst h
          obtain ⟨hvalues, hsound, hstored⟩ := of_ofList hcells
          refine ⟨?_, ⟨Members.not_mem_of_split? hsplit, hsound⟩, hstored, rfl⟩
          rw [toJson, hvalues]
          exact congrArg Json.object (Members.eq_of_split? hsplit).symm
      | _ => simp [hsplit] at h
  | _ => cases h

theorem ofList_toJson (index : Nat) {cells : List Cell} (h : ∀ cell ∈ cells, cell.Sound)
    (hstored : ∀ cell ∈ cells, cell.Stored) :
    Cell.ofList index (cells.map Cell.toJson) = .ok cells := by
  induction cells generalizing index with
  | nil => rfl
  | cons cell rest ih =>
    obtain ⟨hcell, hrest⟩ := List.forall_mem_cons.mp h
    obtain ⟨hcell', hrest'⟩ := List.forall_mem_cons.mp hstored
    simp [Cell.ofList, Cell.ofJson_toJson hcell hcell', ih (index + 1) hrest hrest', Except.map]

/-- A notebook is read as it was stored, in any layout. -/
theorem ofJson_toJson (layout : Layout) {n : Notebook} (h : n.Sound)
    (hstored : ∀ cell ∈ n.cells, cell.Stored) :
    ofJson layout n.toJson = .ok { n with layout } := by
  have hsplit : Members.split? cellsKey
      (n.before ++ (cellsKey, .array (n.cells.map Cell.toJson)) :: n.after) =
        some (n.before, .array (n.cells.map Cell.toJson), n.after) :=
    Members.split?_append h.1 _ _
  simp [ofJson, toJson, hsplit, ofList_toJson 0 h.2 hstored, Except.map]

/-- The notebook with texts as the sources of its code cells, one after the other. -/
def setSources (texts : List Text) (n : Notebook) : Notebook :=
  { n with cells := Cell.setSources texts n.cells }

/-- The value of a notebook with other sources. -/
theorem toJson_setSources (texts : List Text) {n : Notebook} (h : n.Sound) :
    (n.setSources texts).toJson = n.toJson.replaceSources texts := by
  rw [toJson, setSources, Cell.toJson_setSources texts h.2]
  have hcells := Members.update_append (f := Json.setCells texts) h.1
    (.array (n.cells.map Cell.toJson)) n.after
  exact congrArg Json.object hcells.symm

/-- The value of a notebook is an object with members: the cells are one of them. -/
theorem toJson_eq_cons (n : Notebook) : ∃ key v rest, n.toJson = .object ((key, v) :: rest) := by
  rw [toJson]
  cases n.before with
  | nil => exact ⟨_, _, _, rfl⟩
  | cons member more => exact ⟨member.1, member.2, _, rfl⟩

/-! ## Notebooks from documents -/

theorem blank_of_indentAfterFirstLine? {t indent : Text}
    (h : Layout.indentAfterFirstLine? t = some indent) : ∀ c ∈ indent, c = ' ' ∨ c = '\t' := by
  induction t with
  | nil => cases h
  | cons d rest ih =>
    rw [Layout.indentAfterFirstLine?] at h
    split at h
    · intro c hc
      rw [← Option.some.inj h] at hc
      simpa using List.all_eq_true.mp List.all_takeWhile c hc
    · exact ih h

/-- The layout of a document is one that documents are written in. -/
theorem wellFormed_detect (document : Text) : (Layout.detect document).WellFormed := by
  refine ⟨fun indent hindent => blank_of_indentAfterFirstLine? hindent, fun hindent => ?_⟩
  simp only [Layout.detect] at hindent ⊢
  rw [Option.isNone_eq_false_iff.mpr hindent, Bool.false_and]

/-- **Reading a document keeps its value.** -/
theorem of_read {document : Text} {n : Notebook} (h : read document = .ok n) :
    Json.read? (withoutMark document) = some n.toJson ∧ n.Sound ∧
      (∀ cell ∈ n.cells, cell.Stored) ∧ n.layout = Layout.detect document := by
  unfold read at h
  split at h
  · cases h
  · next v hv =>
    rcases hn : ofJson (Layout.detect document) v with fault | n'
    · rw [hn] at h
      cases h
    · rw [hn] at h
      cases h
      obtain ⟨hvalue, hkept⟩ := of_ofJson hn
      exact ⟨hvalue ▸ hv, hkept⟩

/-- A notebook's document starts with a bracket, after the byte order mark that it may have. -/
theorem withoutMark_write (n : Notebook) : withoutMark n.write = n.layout.body n.toJson := by
  obtain ⟨rest, hrest⟩ : ∃ rest, n.layout.body n.toJson = '{' :: rest := ⟨_, rfl⟩
  rw [write, Layout.write_eq_mark_body, hrest]
  by_cases hmark : n.layout.byteOrderMark
  · rw [if_pos hmark, List.singleton_append, withoutMark, if_pos rfl]
  · rw [if_neg hmark, List.nil_append, withoutMark, if_neg (by decide)]

/-- **A notebook with other sources is written as its value with these sources.** -/
theorem read?_write_setSources {document : Text} {n : Notebook} (h : read document = .ok n)
    (texts : List Text) :
    Json.read? (withoutMark (n.setSources texts).write) = some (n.toJson.replaceSources texts) := by
  obtain ⟨hvalue, hsound, -, hlayout⟩ := of_read h
  obtain ⟨hwellFormed, hdepth⟩ := Json.wellFormed_of_read? hvalue
  have hl : (n.setSources texts).layout.WellFormed := by
    rw [setSources, hlayout]
    exact wellFormed_detect document
  rw [withoutMark_write, toJson_setSources texts hsound]
  exact Layout.read?_body hl (Json.wellFormed_replaceSources texts hwellFormed)
    (Nat.le_trans (Json.depth_replaceSources texts _) hdepth)

/-- A document that holds the value of a notebook is read as this notebook, in the layout that the
document shows. -/
theorem read_of_read? {document : Text} {n : Notebook}
    (hvalue : Json.read? (withoutMark document) = some n.toJson) (hsound : n.Sound)
    (hstored : ∀ cell ∈ n.cells, cell.Stored) :
    read document = .ok { n with layout := Layout.detect document } := by
  rw [read, hvalue]
  change (ofJson _ _).mapError _ = _
  rw [ofJson_toJson _ hsound hstored]
  rfl

/-- **A notebook whose code cells have all got other sources is read as it was written**, in the
layout that its document shows. -/
theorem read_write_setSources {document : Text} {n : Notebook} (h : read document = .ok n)
    {texts : List Text} (hlength : texts.length = n.codeCells.length) :
    read (n.setSources texts).write =
      .ok { n.setSources texts with layout := Layout.detect (n.setSources texts).write } := by
  obtain ⟨-, hsound, -⟩ := of_read h
  have hvalue := read?_write_setSources h texts
  rw [← toJson_setSources texts hsound] at hvalue
  exact read_of_read? hvalue ⟨hsound.1, Cell.Sound.setSources texts hsound.2⟩
    fun cell hcell => (Cell.settled_setSources hlength cell hcell).stored

end Notebook
end NotebookTidy
