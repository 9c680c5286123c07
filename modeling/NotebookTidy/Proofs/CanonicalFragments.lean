import NotebookTidy.Proofs.CalmNotebooks
import NotebookTidy.Proofs.TextPieces

/-!
# Canonical fragments

Cutting and joining are inverse to each other between texts and the fragment lists in canonical
form, so a list is what its own text is cut into exactly if it is canonical.  That is the test by
which a formatted cell is told from one that has to be written anew: a cell stays as it is exactly
if its fragments are canonical and the formatted text is the one they stand for
(`CodeCell.setSource_eq_iff`).

Cutting by way of a marker is the same as cutting after every line feed, if the marker occurs in the
marked text only where it was put (`splitAtMarker_eq_split`).  The proof goes along the text: at a
line feed the search finds the marker that was put there and skips it as a whole, and at any other
character it finds nothing.
-/

namespace NotebookTidy

/-! ## Cutting at a word -/

namespace Text

theorem splitOnSkipping_ne_nil (word : Text) (skip : Nat) (t : Text) :
    splitOnSkipping word skip t ≠ [] := by
  induction t generalizing skip with
  | nil => simp [splitOnSkipping]
  | cons c rest ih =>
    cases skip with
    | succ skip => exact ih skip
    | zero =>
      rw [splitOnSkipping]
      split
      · exact List.cons_ne_nil _ _
      · split
        · exact List.cons_ne_nil _ _
        · exact List.cons_ne_nil _ _

/-- Cutting leaves a piece at least. -/
theorem splitOn_ne_nil (word t : Text) : splitOn word t ≠ [] := splitOnSkipping_ne_nil word 0 t

/-- What still belongs to the occurrence found last is skipped. -/
theorem splitOnSkipping_append (word front t : Text) :
    splitOnSkipping word front.length (front ++ t) = splitOn word t := by
  induction front with
  | nil => rfl
  | cons c front ih => exact ih

/-- An occurrence at the start is cut off. -/
theorem splitOn_append {word : Text} (h : word ≠ []) (t : Text) :
    splitOn word (word ++ t) = [] :: splitOn word t := by
  obtain ⟨c, word, rfl⟩ := List.exists_cons_of_ne_nil h
  have hfound : (c :: word).isPrefixOf (c :: (word ++ t)) = true :=
    List.isPrefixOf_iff_prefix.mpr (List.prefix_append (c :: word) t)
  rw [splitOn, List.cons_append, splitOnSkipping, if_pos hfound]
  exact congrArg _ (splitOnSkipping_append _ word t)

/-- A character at which no occurrence starts goes to the first piece. -/
theorem splitOn_cons {word : Text} {c : Char} {t : Text} (h : ¬ word <+: c :: t) :
    ∃ piece pieces, splitOn word t = piece :: pieces ∧
      splitOn word (c :: t) = (c :: piece) :: pieces := by
  have hnone : ¬ word.isPrefixOf (c :: t) = true := fun hfound =>
    h (List.isPrefixOf_iff_prefix.mp hfound)
  rcases hpieces : splitOn word t with - | ⟨piece, pieces⟩
  · exact absurd hpieces (splitOn_ne_nil word t)
  · refine ⟨piece, pieces, rfl, ?_⟩
    rw [splitOn] at hpieces ⊢
    rw [splitOnSkipping, if_neg hnone, hpieces]

end Text

namespace Fragment

/-! ## Cutting by way of a marker -/

/-- **The marker occurs in the marked text only where it was put** for a line feed. -/
def Placed (marker t : Text) : Prop :=
  ∀ before after, mark marker t = before ++ marker ++ after →
    ∃ first rest, t = first ++ '\n' :: rest ∧
      before = mark marker first ∧ after = mark marker rest

/-- What a character of the text becomes. -/
theorem mark_cons (marker : Text) (c : Char) (t : Text) :
    mark marker (c :: t) = (if c = '\n' then marker else [c]) ++ mark marker t :=
  List.flatMap_cons

theorem mark_ne_nil {marker t : Text} (hmarker : marker ≠ []) (ht : t ≠ []) :
    mark marker t ≠ [] := by
  obtain ⟨c, t, rfl⟩ := List.exists_cons_of_ne_nil ht
  rw [mark_cons]
  split
  · exact fun h => hmarker (List.append_eq_nil_iff.mp h).1
  · exact List.cons_ne_nil _ _

/-- A marker that is only where it was put is so in the rest of the text as well. -/
theorem Placed.tail {marker t : Text} {c : Char} (hmarker : marker ≠ [])
    (h : Placed marker (c :: t)) : Placed marker t := by
  intro before after hmark
  have hone : (if c = '\n' then marker else [c]) ≠ [] := by
    split
    · exact hmarker
    · exact List.cons_ne_nil _ _
  have hall : mark marker (c :: t) =
      ((if c = '\n' then marker else [c]) ++ before) ++ marker ++ after := by
    rw [mark_cons, hmark]
    simp only [List.append_assoc]
  obtain ⟨first, rest, ht, hbefore, hafter⟩ := h _ _ hall
  cases first with
  | nil =>
    -- the occurrence would be at the start, where the first character is
    exact absurd (List.append_eq_nil_iff.mp hbefore).1 hone
  | cons d first =>
    obtain ⟨rfl, rfl⟩ := List.cons.inj ht
    rw [mark_cons] at hbefore
    exact ⟨first, rest, rfl, List.append_cancel_left hbefore, hafter⟩

/-- The marker does not start at a character that stayed. -/
theorem Placed.not_prefix {marker t : Text} {c : Char} (hmarker : marker ≠ [])
    (h : Placed marker (c :: t)) (hc : c ≠ '\n') : ¬ marker <+: c :: mark marker t := by
  rintro ⟨after, hafter⟩
  have hall : mark marker (c :: t) = [] ++ marker ++ after := by
    rw [mark_cons, if_neg hc]
    exact hafter.symm
  obtain ⟨first, rest, ht, hbefore, -⟩ := h _ _ hall
  cases first with
  | nil => exact hc (List.cons.inj ht).1
  | cons d first => exact mark_ne_nil hmarker (List.cons_ne_nil d first) hbefore.symm

/-- In the empty text there is no marker. -/
theorem placed_nil {marker : Text} (hmarker : marker ≠ []) : Placed marker [] := by
  intro before after hmark
  obtain ⟨hfront, -⟩ := List.append_eq_nil_iff.mp hmark.symm
  exact absurd (List.append_eq_nil_iff.mp hfront).2 hmarker

/-- A character that stays brings no marker, if none starts at it. -/
theorem Placed.cons {marker t : Text} {c : Char} (h : Placed marker t) (hc : c ≠ '\n')
    (hnone : ¬ marker <+: c :: mark marker t) : Placed marker (c :: t) := by
  intro before after hmark
  rw [mark_cons, if_neg hc, List.singleton_append] at hmark
  cases before with
  | nil => exact absurd ⟨after, hmark.symm⟩ hnone
  | cons d before =>
    obtain ⟨rfl, hrest⟩ := List.cons.inj hmark
    obtain ⟨first, rest, rfl, rfl, hafter⟩ := h before after hrest
    exact ⟨c :: first, rest, rfl, by rw [mark_cons, if_neg hc]; rfl, hafter⟩

/-- A line feed brings one marker, if none starts within that one. -/
theorem Placed.newline {marker t : Text} (h : Placed marker t)
    (hnone : ∀ k < marker.length, 0 < k → ¬ marker <+: marker.drop k ++ mark marker t) :
    Placed marker ('\n' :: t) := by
  intro before after hmark
  rw [mark_cons, if_pos rfl, List.append_assoc] at hmark
  rcases Nat.lt_or_ge before.length marker.length with hshort | hlong
  · have hdrop : marker.drop before.length ++ mark marker t = marker ++ after := by
      rw [← List.drop_append_of_le_length hshort.le, hmark, List.drop_left]
    cases before with
    | nil => exact ⟨[], t, rfl, rfl, (List.append_cancel_left hdrop).symm⟩
    | cons d before => exact absurd ⟨after, hdrop.symm⟩ (hnone _ hshort (Nat.succ_pos _))
  · obtain ⟨before, rfl⟩ : marker <+: before :=
      List.prefix_of_prefix_length_le ⟨_, hmark⟩ ⟨_, rfl⟩ hlong
    rw [List.append_assoc] at hmark
    obtain ⟨first, rest, rfl, rfl, hafter⟩ :=
      h before after (by rw [List.append_cancel_left hmark, List.append_assoc])
    exact ⟨'\n' :: first, rest, rfl, by rw [mark_cons, if_pos rfl], hafter⟩

/-- The fragments that pieces between markers stand for. -/
def ofPieces (pieces : List Text) : List Text :=
  pieces.dropLast.map (· ++ ['\n']) ++
    (if pieces.getLastD [] = [] then [] else [pieces.getLastD []])

theorem splitAtMarker_eq (marker t : Text) :
    splitAtMarker marker t = ofPieces (Text.splitOn marker (mark marker t)) := rfl

/-- A piece before others is a line. -/
theorem ofPieces_cons (piece : Text) {pieces : List Text} (h : pieces ≠ []) :
    ofPieces (piece :: pieces) = (piece ++ ['\n']) :: ofPieces pieces := by
  obtain ⟨next, pieces, rfl⟩ := List.exists_cons_of_ne_nil h
  rfl

/-- A character in front of the pieces is one in front of the fragments. -/
theorem ofPieces_cons_cons (c : Char) (piece : Text) (pieces : List Text) :
    ofPieces ((c :: piece) :: pieces) =
      match ofPieces (piece :: pieces) with
      | [] => [[c]]
      | line :: lines => (c :: line) :: lines := by
  cases pieces with
  | nil => cases piece <;> rfl
  | cons next pieces =>
    rw [ofPieces_cons _ (List.cons_ne_nil _ _), ofPieces_cons _ (List.cons_ne_nil _ _)]
    rfl

/-- At a line feed the marker that was put there is cut off. -/
theorem splitAtMarker_newline {marker : Text} (h : marker ≠ []) (t : Text) :
    splitAtMarker marker ('\n' :: t) = ['\n'] :: splitAtMarker marker t := by
  rw [splitAtMarker_eq, mark_cons, if_pos rfl, Text.splitOn_append h,
    ofPieces_cons _ (Text.splitOn_ne_nil marker _)]
  rfl

/-- A character at which no marker starts goes to the first fragment. -/
theorem splitAtMarker_cons {marker t : Text} {c : Char} (hc : c ≠ '\n')
    (h : ¬ marker <+: c :: mark marker t) :
    splitAtMarker marker (c :: t) =
      match splitAtMarker marker t with
      | [] => [[c]]
      | line :: lines => (c :: line) :: lines := by
  obtain ⟨piece, pieces, hpieces, hall⟩ := Text.splitOn_cons h
  rw [splitAtMarker_eq, splitAtMarker_eq, mark_cons, if_neg hc, List.singleton_append, hall,
    ofPieces_cons_cons, ← hpieces]

/-- **The marker is found astray**: it starts at a character of the text, where none was put. -/
def Astray (marker t : Text) : Prop :=
  ∃ before c after, t = before ++ c :: after ∧ c ≠ '\n' ∧ marker <+: c :: mark marker after

theorem not_astray_nil (marker : Text) : ¬ Astray marker [] := by
  rintro ⟨before, c, after, ht, -⟩
  exact absurd ht.symm (List.append_ne_nil_of_right_ne_nil before (List.cons_ne_nil c after))

theorem astray_cons {marker t : Text} {c : Char} :
    Astray marker (c :: t) ↔ (c ≠ '\n' ∧ marker <+: c :: mark marker t) ∨ Astray marker t := by
  constructor
  · rintro ⟨before, d, after, ht, hd, hfound⟩
    cases before with
    | nil =>
      obtain ⟨rfl, rfl⟩ := List.cons.inj ht
      exact .inl ⟨hd, hfound⟩
    | cons e before =>
      obtain ⟨rfl, rfl⟩ := List.cons.inj ht
      exact .inr ⟨before, d, after, rfl, hd, hfound⟩
  · rintro (⟨hc, hfound⟩ | ⟨before, d, after, rfl, hd, hfound⟩)
    · exact ⟨[], c, t, rfl, hc, hfound⟩
    · exact ⟨c :: before, d, after, rfl, hd, hfound⟩

theorem Placed.not_astray {marker t : Text} (hmarker : marker ≠ []) (h : Placed marker t) :
    ¬ Astray marker t := by
  induction t with
  | nil => exact not_astray_nil marker
  | cons c t ih =>
    intro hastray
    rcases astray_cons.mp hastray with ⟨hc, hfound⟩ | hrest
    · exact h.not_prefix hmarker hc hfound
    · exact ih (h.tail hmarker) hrest

/-- **Cutting by way of a marker is cutting after every line feed**, if the marker is not found
astray. -/
theorem splitAtMarker_eq_split_of_not_astray {marker t : Text} (hmarker : marker ≠ [])
    (h : ¬ Astray marker t) : splitAtMarker marker t = split t := by
  induction t with
  | nil => rfl
  | cons c t ih =>
    obtain ⟨hhere, hlater⟩ := not_or.mp (mt astray_cons.mpr h)
    by_cases hc : c = '\n'
    · subst hc
      rw [splitAtMarker_newline hmarker, ih hlater, split_newline]
    · rw [splitAtMarker_cons hc fun hfound => hhere ⟨hc, hfound⟩, ih hlater]
      exact (if_neg hc).symm

/-- It is so in particular if the marker occurs only where it was put. -/
theorem splitAtMarker_eq_split {marker t : Text} (hmarker : marker ≠ []) (h : Placed marker t) :
    splitAtMarker marker t = split t :=
  splitAtMarker_eq_split_of_not_astray hmarker (h.not_astray hmarker)

/-! ## Texts and canonical lists -/

/-- **Canonical fragments are what their text is cut into.** -/
theorem Canonical.split_join {fragments : List Text} (h : Canonical fragments) :
    split (join fragments) = fragments := by
  induction fragments with
  | nil => rfl
  | cons line lines ih =>
    obtain ⟨hline, hclosed, hlines⟩ := h.first
    have hjoin : join (line :: lines) = line ++ join lines := rfl
    rw [hjoin]
    by_cases hnil : lines = []
    · rw [hnil, join, List.flatten_nil, List.append_nil, hline]
    · rw [split_append (hclosed hnil), hline, ih hlines, List.singleton_append]

theorem canonical_iff {fragments : List Text} :
    Canonical fragments ↔ split (join fragments) = fragments :=
  ⟨Canonical.split_join, fun h => h ▸ canonical_split _⟩

theorem isWholeLine_iff {fragment : Text} :
    IsWholeLine fragment ↔
      (fragment ≠ [] ∧ '\n' ∉ fragment.dropLast) ∧ fragment.getLast? = some '\n' := by
  constructor
  · rintro ⟨body, hbody, rfl⟩
    simpa using hbody
  · rintro ⟨⟨-, hbody⟩, hlast⟩
    exact ⟨fragment.dropLast, hbody, (List.dropLast_append_getLast? _ hlast).symm⟩

/-- A last fragment may lack its line feed. -/
theorem canonical_singleton_iff {last : Text} :
    Canonical [last] ↔ last ≠ [] ∧ '\n' ∉ last.dropLast := by
  constructor
  · rintro (hwhole | ⟨hne, hfeed⟩)
    · exact (isWholeLine_iff.mp hwhole).1
    · exact ⟨hne, fun hmem => hfeed ((List.dropLast_sublist last).subset hmem)⟩
  · rintro ⟨hne, hbody⟩
    obtain ⟨body, c, rfl⟩ := (List.eq_nil_or_concat' last).resolve_left hne
    rw [List.dropLast_concat] at hbody
    by_cases hc : c = '\n'
    · exact .inl ⟨body, hbody, by rw [hc]⟩
    · refine .inr ⟨hne, fun hmem => ?_⟩
      rcases List.mem_append.mp hmem with hmem | hmem
      · exact hbody hmem
      · exact hc (List.mem_singleton.mp hmem).symm

/-- Canonical lists, told by what holds of each fragment: none is empty, a line feed is only ever
the last character, and all fragments but the last end with one. -/
theorem canonical_iff_forall {fragments : List Text} :
    Canonical fragments ↔
      (∀ fragment ∈ fragments, fragment ≠ [] ∧ '\n' ∉ fragment.dropLast) ∧
        ∀ fragment ∈ fragments.dropLast, fragment.getLast? = some '\n' := by
  induction fragments with
  | nil => simp [Canonical]
  | cons line lines ih =>
    cases lines with
    | nil => simpa using canonical_singleton_iff
    | cons next lines =>
      rw [List.dropLast_cons_cons, List.forall_mem_cons (l := next :: lines),
        List.forall_mem_cons (a := line) (l := (next :: lines).dropLast), and_and_and_comm,
        ← isWholeLine_iff]
      exact and_congr_right fun _ => ih

/-- The fragments of a text are the canonical list that stands for it. -/
theorem split_eq_iff {t : Text} {fragments : List Text} :
    split t = fragments ↔ Canonical fragments ∧ t = join fragments := by
  constructor
  · rintro rfl
    exact ⟨canonical_split t, (join_split t).symm⟩
  · rintro ⟨hcanonical, rfl⟩
    exact hcanonical.split_join

end Fragment

/-! ## The test for a formatted cell -/

/-- **A cell stays as it is** exactly if its fragments are canonical and the text is the one that
they stand for. -/
theorem CodeCell.setSource_eq_iff {cell : CodeCell} {text : Text} :
    cell.setSource text = cell ↔ Fragment.Canonical cell.fragments ∧ text = cell.source := by
  rw [← Cell.code.injEq, code_setSource_eq_iff]
  exact Fragment.split_eq_iff

/-- Cells stay as they are when their own sources are put into them exactly if all their fragments
are canonical. -/
theorem Cell.setSources_sources_eq_iff {cells : List Cell} :
    setSources (sources cells) cells = cells ↔
      ∀ cell ∈ cells.filterMap asCode?, Fragment.Canonical cell.fragments := by
  induction cells with
  | nil => exact ⟨fun _ _ hcell => absurd hcell List.not_mem_nil, fun _ => rfl⟩
  | cons cell rest ih =>
    cases cell with
    | other members =>
      have hsources : sources (.other members :: rest) = sources rest := rfl
      rw [hsources, setSources_other, List.cons.injEq, eq_self, true_and, ih]
      exact Iff.rfl
    | code cell =>
      have hset : setSources (sources (.code cell :: rest)) (.code cell :: rest) =
          .code (cell.setSource cell.source) :: setSources (sources rest) rest := rfl
      have hcode : (Cell.code cell :: rest).filterMap asCode? =
          cell :: rest.filterMap asCode? := rfl
      rw [hset, hcode, List.forall_mem_cons, List.cons.injEq, Cell.code.injEq,
        CodeCell.setSource_eq_iff, ih]
      exact and_congr_left fun _ => and_iff_left rfl

/-- Formatting a source that the formatter accepts yields its answer. -/
theorem yields_formatSource_of_accepted {answer : Call → Formatted} {mode : Mode}
    {text formatted : Text} (h : answer ⟨mode, text⟩ = .ok formatted) (rejections : Rejections) :
    (formatSource mode text).Yields answer rejections formatted rejections := by
  rw [Noting.Yields, start_formatSource]
  refine .ask ?_
  rw [h]
  exact .done _

/-- **With a formatter that leaves every source as it is, a notebook is formatted exactly if the
fragments of its code cells are canonical.**  Checking finds that out, formatting puts them in
canonical form, and both agree. -/
theorem Notebook.runs_of_kept {answer : Call → Formatted} {mode : Mode} {n : Notebook} {w : World}
    (h : ∀ cell ∈ n.codeCells, answer ⟨mode, cell.source⟩ = .ok cell.source)
    (hcalm : w.cancelled = false) :
    ∃ formatted, ((n.check mode).run (.ofFunction answer) w).1 = .ok (formatted, .empty) ∧
      ((n.format mode).run (.ofFunction answer) w).1 =
        (n.setSources (Cell.sources n.cells), .ok (!formatted, .empty)) ∧
      (formatted = true ↔ ∀ cell ∈ n.codeCells, Fragment.Canonical cell.fragments) := by
  have hyields : ∀ source ∈ Cell.sources n.cells, ∀ rejections,
      (formatSource mode source).Yields answer rejections source rejections := by
    intro source hsource
    obtain ⟨cell, hcell, rfl⟩ := List.mem_map.mp hsource
    exact yields_formatSource_of_accepted (h cell hcell)
  have hformat := (yields_format_of hyields).result_eq hcalm
  obtain ⟨looked, -, -, hcheck⟩ := yields_check_of hyields
  rw [List.map_id', List.foldl_fixed] at hformat
  rw [List.map_id', List.foldl_fixed] at hcheck
  refine ⟨decide (Cell.setSources (Cell.sources n.cells) n.cells = n.cells),
    hcheck.result_eq hcalm, ?_, ?_⟩
  · rw [hformat, ← decide_not]
  · rw [decide_eq_true_iff]
    exact Cell.setSources_sources_eq_iff

/-- **Cutting and joining are inverse bijections between texts and canonical fragment lists.**
Cutting, also by way of a marker that occurs only where it was put, gives a canonical list that
stands for the text; a list is what its text is cut into exactly if it is canonical; and that is
the test by which checking and formatting tell a formatted cell. -/
theorem Fragment.split_join_inverse :
    (∀ fragments, Canonical fragments ↔
      (∀ fragment ∈ fragments, fragment ≠ [] ∧ '\n' ∉ fragment.dropLast) ∧
        ∀ fragment ∈ fragments.dropLast, fragment.getLast? = some '\n') ∧
    (∀ marker t, IsMarker marker → Placed marker t → splitAtMarker marker t = split t) ∧
    (∀ t, Canonical (split t) ∧ join (split t) = t) ∧
    (∀ fragments, Canonical fragments ↔ split (join fragments) = fragments) ∧
    (∀ (cell : CodeCell) (text : Text),
      cell.setSource text = cell ↔ Canonical cell.fragments ∧ text = cell.source) ∧
    ∀ (answer : Call → Formatted) (mode : Mode) (n : Notebook) (w : World),
      w.cancelled = false →
      (∀ cell ∈ n.codeCells, answer ⟨mode, cell.source⟩ = .ok cell.source) →
      ∃ formatted, ((n.check mode).run (.ofFunction answer) w).1 = .ok (formatted, .empty) ∧
        ((n.format mode).run (.ofFunction answer) w).1 =
          (n.setSources (Cell.sources n.cells), .ok (!formatted, .empty)) ∧
        (formatted = true ↔ ∀ cell ∈ n.codeCells, Canonical cell.fragments) := by
  refine ⟨fun _ => canonical_iff_forall, fun marker t hmarker hplaced => ?_,
    fun t => ⟨canonical_split t, join_split t⟩, fun _ => canonical_iff,
    fun _ _ => CodeCell.setSource_eq_iff,
    fun _ _ _ _ hcalm hkept => Notebook.runs_of_kept hkept hcalm⟩
  have hne : marker ≠ [] := by
    rintro rfl
    exact absurd hmarker.1 (by decide)
  exact splitAtMarker_eq_split hne hplaced

/-- A marker with no digit but those that are fixed. -/
def Fragment.plainMarker : Text := "00000000-0000-4000-8000-000000000000".toList

/-- A source of one line, stored as two fragments, is cut into one by way of a marker; so its cell
is found not to be formatted by a formatter that has nothing to change. -/
theorem Fragment.inverse_of_broken :
    IsMarker plainMarker ∧ splitAtMarker plainMarker "x=\n".toList = split "x=\n".toList ∧
      split (join ["x".toList, "=\n".toList]) ≠ ["x".toList, "=\n".toList] ∧
      ((Notebook.check .standard ⟨[], [.code ⟨[], .lines, ["x".toList, "=\n".toList], []⟩], [],
          .compact⟩).run (.ofFunction fun call => .ok call.source) (.start ⟨[], []⟩)).1 =
        .ok (false, .empty) := by
  obtain ⟨-, hmarked, -, hcanonical, -, hruns⟩ := split_join_inverse
  have hmarker : IsMarker plainMarker := by
    unfold IsMarker
    decide
  have hplaced : Placed plainMarker "x=\n".toList :=
    (((placed_nil (by decide)).newline (by decide)).cons (by decide) (by decide)).cons
      (by decide) (by decide)
  have hbroken : ¬ Canonical ["x".toList, "=\n".toList] := fun h =>
    absurd (hcanonical _ |>.mp h) (by decide)
  refine ⟨hmarker, hmarked _ _ hmarker hplaced, mt (hcanonical _).mpr hbroken, ?_⟩
  obtain ⟨formatted, hcheck, -, hformatted⟩ := hruns (fun call => .ok call.source) .standard
    ⟨[], [.code ⟨[], .lines, ["x".toList, "=\n".toList], []⟩], [], .compact⟩ (.start ⟨[], []⟩) rfl
    fun _ _ => rfl
  have hfalse : formatted = false := by
    rw [Bool.eq_false_iff]
    exact fun h => hbroken (hformatted.mp h _ (List.mem_singleton.mpr rfl))
  rw [hcheck, hfalse]

end NotebookTidy
