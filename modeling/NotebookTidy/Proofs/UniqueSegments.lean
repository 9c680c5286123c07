import NotebookTidy.Proofs.CanonicalFragments
import NotebookTidy.Proofs.ProperSegments

/-!
# The segments of a text are unique

What a text is cut into is told by what holds of each piece (`Segments.Separates`): there is one
code segment more than there are directives, a directive is one line that starts with a mark, no
line of the code starts with one, and what is followed by something ends with a line feed.  Of all
pairs of lists that are so, exactly one gives the text when they are put together, and that is the
one that cutting gives (`Segments.split_unique`).

Code and directives are two lists here, put together by position (`Segments.interleave`), so nothing
about their lengths or their order is taken for granted.
-/

namespace NotebookTidy

open Fragment (Closed)

/-! ## Lines that start with a mark -/

/-- **A directive stands in the text**: a mark is its first character or follows a line feed. -/
def HasDirective (t : Text) : Prop :=
  ∃ before c after, t = before ++ c :: after ∧ Closed before ∧ c ∈ directiveMarks

namespace Fragment

/-- The first fragment starts as the text does. -/
theorem split_cons (c : Char) (t : Text) : ∃ line lines, split (c :: t) = (c :: line) :: lines := by
  rw [split]
  split
  · next h => exact ⟨[], split t, by rw [h]⟩
  · cases split t with
    | nil => exact ⟨[], [], rfl⟩
    | cons line lines => exact ⟨line, lines, rfl⟩

/-- Fragments that are followed by another are whole lines. -/
theorem Canonical.closed_join {front back : List Text} (h : Canonical (front ++ back))
    (hback : back ≠ []) : Closed (join front) := by
  induction front with
  | nil => exact closed_nil
  | cons line front ih =>
    obtain ⟨-, hline, hrest⟩ := h.first
    have hmore : front ++ back ≠ [] := List.append_ne_nil_of_right_ne_nil front hback
    exact (hline hmore).append (ih hrest)

end Fragment

theorem isDirective_iff {line : Text} :
    isDirective line = true ↔ ∃ c ∈ line.head?, c ∈ directiveMarks := by
  cases line with
  | nil => simp [isDirective]
  | cons c rest => simp [isDirective_cons]

theorem plain_iff {t : Text} : Plain t ↔ ¬ HasDirective t := by
  constructor
  · rintro hplain ⟨before, c, after, rfl, hclosed, hmark⟩
    obtain ⟨line, lines, hline⟩ := Fragment.split_cons c after
    have hmem : c :: line ∈ Fragment.split (before ++ c :: after) := by
      rw [Fragment.split_append hclosed, hline]
      exact List.mem_append_right _ List.mem_cons_self
    have hdirective : isDirective (c :: line) = true := isDirective_iff.mpr ⟨c, rfl, hmark⟩
    rw [hplain _ hmem] at hdirective
    cases hdirective
  · intro hnone fragment hfragment
    rw [Bool.eq_false_iff]
    intro hdirective
    obtain ⟨c, rest, rfl, hmark⟩ := mark_of_isDirective hdirective
    obtain ⟨front, back, hsplit⟩ := List.append_of_mem hfragment
    have hclosed : Closed (Fragment.join front) := by
      have hcanonical := Fragment.canonical_split t
      rw [hsplit] at hcanonical
      exact hcanonical.closed_join (List.cons_ne_nil _ _)
    refine hnone ⟨Fragment.join front, c, rest ++ Fragment.join back, ?_, hclosed, hmark⟩
    rw [← Fragment.join_split t, hsplit]
    simp [Fragment.join]

namespace Segments

/-! ## Two lists put together -/

/-- **Code segments and directives put together by position**: after each segment the directive of
the same position, if there is one. -/
def interleave (code directives : List Text) : Text :=
  (code.mapIdx fun position segment => segment ++ directives.getD position []).flatten

theorem interleave_cons (segment : Text) (code directives : List Text) :
    interleave (segment :: code) directives =
      segment ++ directives.headD [] ++ interleave code directives.tail := by
  rw [interleave, List.mapIdx_cons, List.flatten_cons, interleave]
  cases directives <;> simp

/-- Segments are put together by position. -/
theorem join_eq_interleave (s : Segments) : s.join = interleave s.code s.directives := by
  obtain ⟨head, tail⟩ := s
  rw [join, code, directives, interleave_cons]
  induction tail generalizing head with
  | nil => simp [joinTail, interleave]
  | cons entry rest ih =>
    obtain ⟨directive, segment⟩ := entry
    have hrest := ih segment
    simp only [List.append_assoc] at hrest
    simp only [joinTail, List.map_cons, interleave_cons, List.headD_cons, List.tail_cons,
      List.append_assoc, hrest]

/-! ## What holds of the pieces -/

/-- **Code segments and directives as a text is cut into them.** -/
structure Separates (code directives : List Text) : Prop where
  /-- There is one code segment more than there are directives. -/
  length : code.length = directives.length + 1
  /-- A directive starts with a mark. -/
  marked : ∀ directive ∈ directives, ∃ c ∈ directive.head?, c ∈ directiveMarks
  /-- A directive is a single line. -/
  single : ∀ directive ∈ directives, '\n' ∉ directive.dropLast
  /-- It ends with a line feed, unless it is the last one and nothing follows. -/
  ended : ∀ position directive, directives[position]? = some directive →
    directive.getLast? = some '\n' ∨
      (position + 1 = directives.length ∧ code.getLast? = some [])
  /-- No line of the code is a directive. -/
  plain : ∀ segment ∈ code, ¬ HasDirective segment
  /-- Code before a directive is empty or ends with a line feed. -/
  closed : ∀ segment ∈ code.dropLast, segment = [] ∨ segment.getLast? = some '\n'

theorem closed_iff {t : Text} : Closed t ↔ t = [] ∨ t.getLast? = some '\n' := by
  constructor
  · intro h
    rcases h.eq_nil_or_line with rfl | ⟨body, rfl⟩
    · exact .inl rfl
    · exact .inr List.getLast?_concat
  · rintro (rfl | h) c hc
    · cases hc
    · rw [h] at hc
      exact (Option.some.inj hc).symm

/-- A directive that ends with a line feed, as long as something follows it. -/
def IsDirectiveLine (directive : Text) (followed : Prop) : Prop :=
  (∃ c ∈ directive.head?, c ∈ directiveMarks) ∧ '\n' ∉ directive.dropLast ∧
    (followed → directive.getLast? = some '\n')

theorem separates_cons {head segment directive : Text} {code directives : List Text} :
    Separates (head :: segment :: code) (directive :: directives) ↔
      (¬ HasDirective head ∧ Closed head) ∧
        IsDirectiveLine directive (segment ≠ [] ∨ directives ≠ []) ∧
        Separates (segment :: code) directives := by
  constructor
  · intro h
    obtain ⟨hmarked, hmarked'⟩ := List.forall_mem_cons.mp h.marked
    obtain ⟨hsingle, hsingle'⟩ := List.forall_mem_cons.mp h.single
    obtain ⟨hplain, hplain'⟩ := List.forall_mem_cons.mp h.plain
    have hclosed := h.closed
    rw [List.dropLast_cons_cons] at hclosed
    obtain ⟨hhead, hclosed'⟩ := List.forall_mem_cons.mp hclosed
    have hlength : code.length = directives.length := by simpa using h.length
    refine ⟨⟨hplain, closed_iff.mpr hhead⟩, ⟨hmarked, hsingle, fun hmore => ?_⟩,
      ⟨by simpa using h.length, hmarked', hsingle', fun position other hother => ?_, hplain',
        hclosed'⟩⟩
    · refine (h.ended 0 directive rfl).resolve_right ?_
      rintro ⟨hlast, hcode⟩
      have hnone : directives = [] := by simpa using hlast.symm
      rw [hnone, List.length_nil, List.length_eq_zero_iff] at hlength
      rw [hlength, List.getLast?_cons_cons, List.getLast?_singleton] at hcode
      exact hmore.elim (fun hne => hne (Option.some.inj hcode)) fun hne => hne hnone
    · have hended := h.ended (position + 1) other hother
      rw [List.getLast?_cons_cons] at hended
      exact hended.imp_right fun hlast => ⟨Nat.succ.inj hlast.1, hlast.2⟩
  · rintro ⟨⟨hplain, hhead⟩, ⟨hmarked, hsingle, hended⟩, h⟩
    refine ⟨by simpa using h.length, List.forall_mem_cons.mpr ⟨hmarked, h.marked⟩,
      List.forall_mem_cons.mpr ⟨hsingle, h.single⟩, fun position other hother => ?_,
      List.forall_mem_cons.mpr ⟨hplain, h.plain⟩, ?_⟩
    · rw [List.getLast?_cons_cons]
      cases position with
      | zero =>
        cases hother
        by_cases hmore : segment ≠ [] ∨ directives ≠ []
        · exact .inl (hended hmore)
        · rw [not_or, not_ne_iff, not_ne_iff] at hmore
          obtain ⟨rfl, rfl⟩ := hmore
          have hcode : code = [] := by simpa using h.length
          exact .inr ⟨rfl, by rw [hcode]; rfl⟩
      | succ position =>
        exact (h.ended position other hother).imp_right fun hlast =>
          ⟨congrArg Nat.succ hlast.1, hlast.2⟩
    · rw [List.dropLast_cons_cons]
      exact List.forall_mem_cons.mpr ⟨closed_iff.mp hhead, h.closed⟩

theorem isDirectiveLine_iff {directive : Text} {followed : Prop} :
    IsDirectiveLine directive followed ↔
      isDirective directive = true ∧ Fragment.split directive = [directive] ∧
        (followed → Closed directive) := by
  have hsplit : Fragment.split directive = [directive] ↔
      directive ≠ [] ∧ '\n' ∉ directive.dropLast := by
    rw [← Fragment.canonical_singleton_iff, Fragment.canonical_iff, Fragment.join,
      List.flatten_singleton]
  rw [IsDirectiveLine, ← isDirective_iff, hsplit, closed_iff]
  constructor
  · rintro ⟨hdirective, hsingle, hended⟩
    have hne : directive ≠ [] := by
      rintro rfl
      cases hdirective
    exact ⟨hdirective, ⟨hne, hsingle⟩, fun hmore => .inr (hended hmore)⟩
  · rintro ⟨hdirective, ⟨hne, hsingle⟩, hended⟩
    exact ⟨hdirective, hsingle, fun hmore => (hended hmore).resolve_left hne⟩

/-- **Proper segments, told by their two lists.** -/
theorem proper_iff_separates {s : Segments} : s.Proper ↔ Separates s.code s.directives := by
  obtain ⟨head, tail⟩ := s
  rw [Proper, code, directives, plain_iff]
  induction tail generalizing head with
  | nil =>
    constructor
    · rintro ⟨hplain, -, -⟩
      exact ⟨rfl, by simp, by simp, by simp, by simpa using hplain, by simp⟩
    · intro h
      exact ⟨h.plain head List.mem_cons_self, fun hne => absurd rfl hne, trivial⟩
  | cons entry rest ih =>
    obtain ⟨directive, segment⟩ := entry
    have hmap : rest.map Prod.fst ≠ [] ↔ rest ≠ [] := not_congr List.map_eq_nil_iff
    rw [List.map_cons, List.map_cons, separates_cons, ← ih segment, isDirectiveLine_iff, ProperTail,
      plain_iff, hmap]
    constructor
    · rintro ⟨hplain, hclosed, hdirective, hline, hsegment, hmore, hends, hrest⟩
      exact ⟨⟨hplain, hclosed (List.cons_ne_nil _ _)⟩, ⟨hdirective, hline, hmore⟩, hsegment, hends,
        hrest⟩
    · rintro ⟨⟨hplain, hclosed⟩, ⟨hdirective, hline, hmore⟩, hsegment, hends, hrest⟩
      exact ⟨hplain, fun _ => hclosed, hdirective, hline, hsegment, hmore, hends, hrest⟩

/-- Two lists of the right lengths are those of segments. -/
theorem exists_of_length {code directives : List Text}
    (h : code.length = directives.length + 1) :
    ∃ s : Segments, s.code = code ∧ s.directives = directives := by
  obtain ⟨head, code, rfl⟩ := List.exists_cons_of_length_eq_add_one h
  have hlength : code.length = directives.length := by simpa using h
  refine ⟨⟨head, directives.zip code⟩, ?_, ?_⟩
  · exact congrArg (head :: ·) (List.map_snd_zip hlength.le)
  · exact List.map_fst_zip hlength.ge

/-- **Cutting loses nothing and is exact.**  A text's segments are one more than its directives, put
together they are the text, and of all pairs of lists whose pieces are as they should be
(`Separates`) its code and its directives are the only one that gives the text. -/
theorem split_unique (t : Text) :
    (split t).code.length = (split t).directives.length + 1 ∧ (split t).join = t ∧
      ∀ code directives, Separates code directives ∧ interleave code directives = t ↔
        (split t).code = code ∧ (split t).directives = directives := by
  refine ⟨length_code _, join_split t, fun code directives => ?_⟩
  constructor
  · rintro ⟨hseparates, rfl⟩
    obtain ⟨s, rfl, rfl⟩ := exists_of_length hseparates.length
    rw [← join_eq_interleave, split_join (proper_iff_separates.mpr hseparates)]
    exact ⟨rfl, rfl⟩
  · rintro ⟨rfl, rfl⟩
    exact ⟨proper_iff_separates.mp (proper_split t), by rw [← join_eq_interleave, join_split]⟩

end Segments
end NotebookTidy
