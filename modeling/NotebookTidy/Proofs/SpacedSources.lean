import NotebookTidy.Proofs.CalmRuns
import NotebookTidy.Proofs.ProperSegments
import NotebookTidy.Proofs.SpacedCode

/-!
# Spaced sources

What formatting a cell with the spacing formatter makes of its source (`tidySource`) and notes down
(`notedSource`), and that it does so a second time with nothing changed: the source is cut up again
exactly if it was, into the same directives and the code that came of its code.
-/

namespace NotebookTidy

open Fragment (Closed)

/-! ## Directives are refused -/

/-- A directive is a faulty line, and one that a refusal shows to be a directive. -/
theorem faulty_of_isDirective {fragment : Text} (h : isDirective fragment = true) :
    Spacing.isFaulty (Text.withoutLineEnd fragment) = true ∧
      quotesDirective (some (Text.withoutLineEnd fragment)) = true := by
  obtain ⟨c, rest, rfl, hmark⟩ := mark_of_isDirective h
  obtain ⟨hblank, hfeed, hreturn⟩ := not_blank_of_mem_directiveMarks c hmark
  obtain ⟨kept, hkept⟩ := Text.withoutLineEnd_cons hfeed hreturn rest
  have hstart : Text.trimStart (c :: kept) = c :: kept := by
    rw [Text.trimStart_cons, hblank]
    rfl
  rw [hkept]
  refine ⟨?_, ?_⟩
  · rw [Spacing.isFaulty_eq, hstart]
    simp [hmark]
  · rw [quotesDirective, hstart, isDirective_cons]
    simpa using hmark

/-- Code that is not refused has no directives. -/
theorem plain_of_accepted {code : Text} (h : Spacing.refusal? code = none) : Plain code := by
  intro fragment hfragment
  rw [Spacing.refusal?, Spacing.firstFault?_eq_none_iff] at h
  refine Bool.eq_false_iff.mpr fun hdirective => ?_
  have hsound := h _ (List.mem_map_of_mem hfragment)
  rw [(faulty_of_isDirective hdirective).1] at hsound
  cases hsound

namespace Spacing

theorem plain_tidy {code : Text} (h : Plain code) : Plain (tidy code) := by
  by_cases hrefusal : refusal? code = none
  · refine plain_of_accepted ?_
    rw [refusal?_tidy, hrefusal]
  · rw [tidy_of_refused hrefusal]
    exact h

/-! ## Which sources are cut up -/

/-- The source is refused for a directive and has directives to cut it at. -/
def isCut (text : Text) : Bool :=
  match refusal? text with
  | some (_, line) => cutsUp text (some line)
  | none => false

theorem firstFault?_append (number : Nat) (a b : List Text) :
    firstFault? number (a ++ b) = (firstFault? number a).or (firstFault? (number + a.length) b) := by
  induction a generalizing number with
  | nil => rfl
  | cons line rest ih =>
    rw [List.cons_append, firstFault?, firstFault?]
    split
    · rfl
    · rw [ih, List.length_cons, Nat.add_assoc, Nat.add_comm 1]

/-- What a source with directives is refused for is in the code before the first one, or it is the
first one. -/
theorem refusal?_join {s : Segments} (h : s.Proper) (hne : s.tail ≠ []) :
    ∃ number directive, isDirective directive = true ∧
      refusal? s.join = (refusal? s.head).or (some (number, Text.withoutLineEnd directive)) := by
  obtain ⟨head, tail⟩ := s
  obtain ⟨-, hclosed, htail⟩ := h
  cases tail with
  | nil => exact absurd rfl hne
  | cons entry rest =>
    obtain ⟨directive, code⟩ := entry
    have hfirst : Text.lines (Segments.joinTail ((directive, code) :: rest)) =
        Text.withoutLineEnd directive :: Text.lines (code ++ Segments.joinTail rest) := by
      rw [Text.lines, Segments.fragments_joinTail htail, List.map_cons]
      rfl
    refine ⟨1 + (Text.lines head).length, directive, htail.1, ?_⟩
    rw [Segments.join, refusal?, Text.lines_append (hclosed hne), firstFault?_append, hfirst,
      firstFault?, if_pos (faulty_of_isDirective htail.1).1]
    rfl

/-- **A source is cut up** if it has directives and its first code segment is not refused for
anything but a directive. -/
theorem isCut_join {s : Segments} (h : s.Proper) :
    isCut s.join = true ↔ s.tail ≠ [] ∧
      ∀ number line, refusal? s.head = some (number, line) → quotesDirective (some line) = true := by
  by_cases hne : s.tail = []
  · refine ⟨fun hcut => ?_, fun hcut => absurd hne hcut.1⟩
    rw [isCut] at hcut
    split at hcut
    · simp [cutsUp, Segments.split_join h, hne] at hcut
    · cases hcut
  · obtain ⟨first, directive, hdirective, hrefusal⟩ := refusal?_join h hne
    rw [isCut, hrefusal]
    -- the head is refused first, and only then the first directive
    cases hhead : refusal? s.head with
    | none => simp [cutsUp, Segments.split_join h, hne, (faulty_of_isDirective hdirective).2]
    | some found =>
      obtain ⟨number, line⟩ := found
      simp [cutsUp, Segments.split_join h, hne]

/-- Tidying the code segments does not change whether the source is cut up. -/
theorem isCut_mapCode {s : Segments} (h : s.Proper) (h' : (s.mapCode tidy).Proper) :
    isCut (s.mapCode tidy).join = isCut s.join := by
  rw [Bool.eq_iff_iff, isCut_join h, isCut_join h']
  have hhead : refusal? (s.mapCode tidy).head = refusal? s.head := refusal?_tidy s.head
  have htail : (s.mapCode tidy).tail ≠ [] ↔ s.tail ≠ [] := not_congr List.map_eq_nil_iff
  rw [hhead, htail]

/-! ## What becomes of a source -/

/-- **What becomes of a source**, as a whole or segment by segment. -/
def tidySource (text : Text) : Text :=
  if isCut text then ((Segments.split text).mapCode tidy).join else tidy text

/-- The notes after a piece of code: refused code is noted down. -/
def noted (code : Text) (rejections : Rejections) : Rejections :=
  match refusal? code with
  | some (number, line) => rejections.note code (faultMessage number line)
  | none => rejections

/-- The notes after several pieces of code, one after the other. -/
def notedAll (codes : List Text) (rejections : Rejections) : Rejections :=
  codes.foldl (fun rejections code => noted code rejections) rejections

/-- **The notes after a source.** -/
def notedSource (text : Text) (rejections : Rejections) : Rejections :=
  if isCut text then notedAll (Segments.split text).code rejections else noted text rejections

theorem proper_mapCode_tidy (text : Text) : ((Segments.split text).mapCode tidy).Proper :=
  (Segments.proper_split text).mapCode rfl (fun _ => plain_tidy) fun _ => closed_tidy

theorem isCut_tidySource (text : Text) : isCut (tidySource text) = isCut text := by
  by_cases hcut : isCut text = true
  · -- the same segments, tidied, make the same decision
    rw [tidySource, if_pos hcut,
      isCut_mapCode (Segments.proper_split text) (proper_mapCode_tidy text), Segments.join_split]
  · rw [tidySource, if_neg hcut]
    by_cases hrefusal : refusal? text = none
    · rw [isCut, isCut, refusal?_tidy, hrefusal]
    · rw [tidy_of_refused hrefusal]

/-- A source that is cut up is cut again at the same directives. -/
theorem split_tidySource {text : Text} (hcut : isCut text = true) :
    Segments.split (tidySource text) = (Segments.split text).mapCode tidy := by
  rw [tidySource, if_pos hcut, Segments.split_join (proper_mapCode_tidy text)]

theorem mapCode_tidy_tidy (s : Segments) : (s.mapCode tidy).mapCode tidy = s.mapCode tidy := by
  simp [Segments.mapCode, tidy_tidy]

/-- **A tidy source stays as it is.** -/
theorem tidySource_tidySource (text : Text) : tidySource (tidySource text) = tidySource text := by
  by_cases hcut : isCut text = true
  · rw [tidySource, if_pos (by rw [isCut_tidySource, hcut]), split_tidySource hcut,
      mapCode_tidy_tidy, tidySource, if_pos hcut]
  · rw [tidySource, if_neg (by rw [isCut_tidySource]; exact hcut), tidySource, if_neg hcut,
      tidy_tidy]

/-- Code that has been tidied gets the notes that it got before: only code that was kept is noted
down. -/
theorem noted_tidy (code : Text) : noted (tidy code) = noted code := by
  funext rejections
  by_cases hrefusal : refusal? code = none
  · rw [noted, noted, refusal?_tidy, hrefusal]
  · rw [tidy_of_refused hrefusal]

theorem notedAll_tidy (codes : List Text) (rejections : Rejections) :
    notedAll (codes.map tidy) rejections = notedAll codes rejections := by
  rw [notedAll, List.foldl_map, notedAll]
  exact congrArg (fun f => codes.foldl f rejections)
    (funext fun between => funext fun code => congrFun (noted_tidy code) between)

theorem code_mapCode (f : Text → Text) (s : Segments) : (s.mapCode f).code = s.code.map f := by
  simp [Segments.code, Segments.mapCode, Function.comp_def]

/-- **A source gets the same notes a second time.** -/
theorem notedSource_tidySource (text : Text) (rejections : Rejections) :
    notedSource (tidySource text) rejections = notedSource text rejections := by
  by_cases hcut : isCut text = true
  · rw [notedSource, if_pos (by rw [isCut_tidySource, hcut]), split_tidySource hcut, code_mapCode,
      notedAll_tidy, notedSource, if_pos hcut]
  · rw [notedSource, if_neg (by rw [isCut_tidySource]; exact hcut), tidySource, if_neg hcut,
      noted_tidy, notedSource, if_neg hcut]

/-! ## Sources with the crash word -/

/-- The crash word is in a piece of the segments only if it is in the source. -/
theorem infix_of_split {text piece : Text} (h : crashWord <:+: piece)
    (hpiece : piece = (Segments.split text).head ∨
      ∃ entry ∈ (Segments.split text).tail, piece = entry.1 ∨ piece = entry.2) :
    crashWord <:+: text := by
  refine h.trans ?_
  rw [← Segments.join_split text]
  rcases hpiece with rfl | ⟨entry, hentry, hpiece⟩
  · exact (List.prefix_append _ _).isInfix
  · have htail : Segments.joinTail (Segments.split text).tail <:+: (Segments.split text).join :=
      (List.suffix_append _ _).isInfix
    obtain ⟨hdirective, hcode⟩ := Segments.infix_joinTail_of_mem hentry
    rcases hpiece with rfl | rfl
    · exact hdirective.trans htail
    · exact hcode.trans htail

/-- **Formatting makes no crash word.** -/
theorem infix_tidySource {text : Text} (h : crashWord <:+: tidySource text) :
    crashWord <:+: text := by
  by_cases hcut : isCut text = true
  · rw [tidySource, if_pos hcut] at h
    rcases (proper_mapCode_tidy text).infix_join (by decide) (by decide) h with h | ⟨entry, hentry, h⟩
    · exact infix_of_split (infix_tidy h) (Or.inl rfl)
    · obtain ⟨⟨directive, code⟩, hold, rfl⟩ := List.mem_map.mp hentry
      rcases h with h | h
      · exact infix_of_split h (Or.inr ⟨_, hold, Or.inl rfl⟩)
      · exact infix_of_split (infix_tidy h) (Or.inr ⟨_, hold, Or.inr rfl⟩)
  · rw [tidySource, if_neg hcut] at h
    exact infix_tidy h

end Spacing
end NotebookTidy
