import NotebookTidy.Proofs.CanonicalFragments

/-!
# Markers that are found astray

A text is cut by way of a marker that it does not contain.  Once markers stand for the line feeds,
the marker can still be found where none was put: if a line ends with the front of the marker, and
what the marker lacks there is the front of the next one.  Then the marker begins as it ends, and
the line lacks only such a **border** of it (`astray_iff`).

A found marker that was not put there takes characters of the text with it, so such a text is not
put together again from its pieces (`join_splitAtMarker_eq_iff`).  The dashes of a random identifier
keep its borders short: none has more than eight digits (`IsMarker.border_le`).  So the check that
the marker does not occur in the text is enough unless a line ends with all of the marker but a
border (`splitAtMarker_eq_split_iff`), and there is a marker and a text for which it is not enough
(`not_split_at_bordered`).
-/

namespace NotebookTidy
namespace Fragment

/-! ## What a stray marker does -/

/-- A marker found at the first character takes that character away. -/
theorem splitAtMarker_of_found {marker t : Text} {c : Char} (hmarker : marker ≠ [])
    (hc : c ≠ '\n') (hfound : marker <+: c :: mark marker t) :
    ∃ more, splitAtMarker marker (c :: t) = ['\n'] :: more := by
  obtain ⟨after, hafter⟩ := hfound
  refine ⟨ofPieces (Text.splitOn marker after), ?_⟩
  rw [splitAtMarker_eq, mark_cons, if_neg hc, List.singleton_append, ← hafter,
    Text.splitOn_append hmarker, ofPieces_cons _ (Text.splitOn_ne_nil marker after)]
  rfl

/-- Pieces put together again are the text exactly if the marker is not found astray. -/
theorem join_splitAtMarker_eq_iff {marker t : Text} (hmarker : marker ≠ []) :
    join (splitAtMarker marker t) = t ↔ ¬ Astray marker t := by
  constructor
  · intro hjoin hastray
    induction t with
    | nil => exact not_astray_nil marker hastray
    | cons c t ih =>
      by_cases hc : c = '\n'
      · subst hc
        rw [splitAtMarker_newline hmarker] at hjoin
        have hrest := (astray_cons.mp hastray).resolve_left fun h => h.1 rfl
        exact ih (List.cons.inj hjoin).2 hrest
      · by_cases hfound : marker <+: c :: mark marker t
        · obtain ⟨more, hmore⟩ := splitAtMarker_of_found hmarker hc hfound
          rw [hmore] at hjoin
          exact hc (List.cons.inj hjoin).1.symm
        · have hrest := (astray_cons.mp hastray).resolve_left fun h => hfound h.2
          rw [splitAtMarker_cons hc hfound] at hjoin
          refine ih ?_ hrest
          cases hsplit : splitAtMarker marker t with
          | nil => simpa [hsplit, join] using hjoin
          | cons line lines => simpa [hsplit, join] using hjoin
  · intro hastray
    rw [splitAtMarker_eq_split_of_not_astray hmarker hastray, join_split]

/-! ## Where a marker is found astray -/

theorem mark_append (marker a b : Text) : mark marker (a ++ b) = mark marker a ++ mark marker b :=
  List.flatMap_append

/-- A text without line feeds stays. -/
theorem mark_of_not_mem (marker : Text) {t : Text} (h : '\n' ∉ t) : mark marker t = t := by
  induction t with
  | nil => rfl
  | cons c t ih =>
    obtain ⟨hc, ht⟩ := not_or.mp (mt List.mem_cons.mpr h)
    rw [mark_cons, if_neg (Ne.symm hc), ih ht, List.singleton_append]

/-- A line with what follows it, marked. -/
theorem mark_line (marker : Text) {line : Text} (h : '\n' ∉ line) (rest : Text) :
    mark marker (line ++ '\n' :: rest) = line ++ (marker ++ mark marker rest) := by
  rw [mark_append, mark_of_not_mem marker h, mark_cons, if_pos rfl]

/-- **A border**: the word begins with so many characters as it ends with. -/
def HasBorder (word : Text) (k : Nat) : Prop := word.take k = word.drop (word.length - k)

/-- **A line of the text runs into the marker** that is put after it: it ends with all of the marker
but a border. -/
def RunsInto (t marker : Text) : Prop :=
  ∃ k, 0 < k ∧ k < marker.length ∧ HasBorder marker k ∧
    marker.take (marker.length - k) ++ ['\n'] <:+: t

/-- A word that starts within the front, and ends in itself put after the front, has the rest of it
as a border. -/
theorem border_of_prefix {word front rest : Text} (h : word <+: front ++ (word ++ rest))
    (hshort : front.length < word.length) :
    front = word.take front.length ∧ HasBorder word (word.length - front.length) := by
  have hfront : front <+: word :=
    List.prefix_of_prefix_length_le (List.prefix_append front _) h hshort.le
  obtain ⟨back, rfl⟩ := hfront
  have hback : back <+: front ++ back := by
    refine List.prefix_of_prefix_length_le ((List.prefix_append_right_inj front).mp h)
      (List.prefix_append _ rest) ?_
    rw [List.length_append]
    omega
  have hlength : (front ++ back).length - front.length = back.length := by
    rw [List.length_append]
    omega
  have hrest : (front ++ back).length - back.length = front.length := by
    rw [List.length_append]
    omega
  constructor
  · rw [List.take_left]
  · rw [HasBorder, hlength, hrest, List.drop_left]
    exact (List.prefix_iff_eq_take.mp hback).symm

/-- **A marker that the text lacks is found astray exactly where a line runs into it.** -/
theorem astray_iff {marker t : Text} (hfeed : '\n' ∉ marker) (habsent : ¬ marker <:+: t) :
    Astray marker t ↔ RunsInto t marker := by
  constructor
  · rintro ⟨before, c, after, rfl, hc, hfound⟩
    have hwithin : c :: after <:+: before ++ c :: after := (List.suffix_append before _).isInfix
    by_cases hmem : '\n' ∈ after
    · obtain ⟨line, rest, rfl, hline⟩ := List.eq_append_cons_of_mem hmem
      rw [mark_line marker hline, ← List.cons_append] at hfound
      by_cases hlong : marker.length ≤ (c :: line).length
      · -- the marker would stand in the line
        have hinline : marker <+: c :: line :=
          List.prefix_of_prefix_length_le hfound (List.prefix_append _ _) hlong
        have hline : c :: line <+: c :: (line ++ '\n' :: rest) := List.prefix_append (c :: line) _
        exact absurd ((hinline.trans hline).isInfix.trans hwithin) habsent
      · have hshort := Nat.lt_of_not_le hlong
        obtain ⟨hfront, hborder⟩ := border_of_prefix hfound hshort
        have hpositive : 0 < (c :: line).length := Nat.succ_pos _
        refine ⟨marker.length - (c :: line).length, by omega, by omega, hborder, ?_⟩
        rw [Nat.sub_sub_self hshort.le, ← hfront]
        exact ⟨before, rest, by simp⟩
    · -- without a line feed after it, the marker would stand in the text
      rw [mark_of_not_mem marker hmem] at hfound
      exact absurd (hfound.isInfix.trans hwithin) habsent
  · rintro ⟨k, hpositive, hlong, hborder, before, after, rfl⟩
    obtain ⟨c, line, hline⟩ : ∃ c line, marker.take (marker.length - k) = c :: line := by
      refine List.exists_cons_of_ne_nil fun hnil => ?_
      have hlength := congrArg List.length hnil
      rw [List.length_take, List.length_nil] at hlength
      omega
    have hmarker : marker = (c :: line) ++ marker.take k := by
      rw [hborder, ← hline, List.take_append_drop]
    have hclean : '\n' ∉ c :: line := fun hmem =>
      hfeed (List.mem_of_mem_take (hline ▸ hmem))
    obtain ⟨hc, hfeedless⟩ := not_or.mp (mt List.mem_cons.mpr hclean)
    refine ⟨before, c, line ++ '\n' :: after, by simp [hline], Ne.symm hc, ?_⟩
    rw [mark_line marker hfeedless, ← List.cons_append]
    nth_rewrite 1 [hmarker]
    exact (List.prefix_append_right_inj _).mpr
      ((List.take_prefix k marker).trans (List.prefix_append _ _))

/-! ## Random identifiers -/

/-- The positions of the dashes. -/
def dashes : List Nat := [8, 13, 18, 23]

theorem dash_mem_markerChars {position : Nat} : '-' ∈ markerChars position ↔ position ∈ dashes := by
  rw [markerChars]
  by_cases hdash : position ∈ [8, 13, 18, 23]
  · simp [dashes, hdash]
  · rw [if_neg hdash]
    have hnone : '-' ∉ (if position = 14 then ['4']
        else if position = 19 then ['8', '9', 'a', 'b'] else "0123456789abcdef".toList) := by
      split
      · decide
      · split <;> decide
    exact iff_of_false hnone hdash

theorem newline_not_mem_markerChars (position : Nat) : '\n' ∉ markerChars position := by
  rw [markerChars]
  split
  · decide
  · split
    · decide
    · split <;> decide

namespace IsMarker
variable {marker : Text}

theorem mem_markerChars (h : IsMarker marker) {position : Nat} {c : Char}
    (hc : marker[position]? = some c) : c ∈ markerChars position :=
  h.2 (c, position) (List.mem_zipIdx_iff_getElem?.mpr hc)

theorem ne_nil (h : IsMarker marker) : marker ≠ [] := by
  rintro rfl
  exact absurd h.1 (by decide)

theorem newline_not_mem (h : IsMarker marker) : '\n' ∉ marker := by
  intro hmem
  obtain ⟨position, hposition⟩ := List.mem_iff_getElem?.mp hmem
  exact newline_not_mem_markerChars position (h.mem_markerChars hposition)

/-- There are dashes at their positions and nowhere else. -/
theorem dash_iff (h : IsMarker marker) {position : Nat} :
    marker[position]? = some '-' ↔ position ∈ dashes := by
  constructor
  · intro hdash
    exact dash_mem_markerChars.mp (h.mem_markerChars hdash)
  · intro hdash
    have hbound : position < marker.length := by
      rw [h.1]
      simp only [dashes, List.mem_cons, List.not_mem_nil, or_false] at hdash
      omega
    have hc := h.mem_markerChars (List.getElem?_eq_getElem hbound)
    have hdashes : markerChars position = ['-'] := if_pos hdash
    rw [hdashes, List.mem_singleton] at hc
    rw [List.getElem?_eq_getElem hbound, hc]

/-- **A border is at most as long as the first group of digits.**  A longer one would hold the first
dash, and its other dashes would be where there are none. -/
theorem border_le (h : IsMarker marker) {k : Nat} (hlong : k < marker.length)
    (hborder : HasBorder marker k) : k ≤ 8 := by
  rw [h.1] at hlong
  have hshift {position : Nat} (hposition : position < k) (hdash : position ∈ dashes) :
      36 - k + position ∈ dashes := by
    rw [← h.dash_iff] at hdash ⊢
    have htake : (marker.take k)[position]? = some '-' := by
      rw [List.getElem?_take_of_lt hposition, hdash]
    rwa [hborder, List.getElem?_drop, h.1] at htake
  by_contra hover
  have hfirst : 36 - k + 8 ∈ dashes := hshift (by omega) (by decide)
  have hcases : k = 31 ∨ k = 26 ∨ k = 21 := by
    simp only [dashes, List.mem_cons, List.not_mem_nil, or_false] at hfirst
    omega
  rcases hcases with rfl | rfl | rfl
  · have hdash : 23 ∈ dashes := by decide
    exact absurd (hshift (by decide) hdash) (by decide)
  · have hdash : 18 ∈ dashes := by decide
    exact absurd (hshift (by decide) hdash) (by decide)
  · have hdash : 13 ∈ dashes := by decide
    exact absurd (hshift (by decide) hdash) (by decide)

end IsMarker

/-- **Cutting by way of a marker that the text does not contain** is cutting after every line feed,
and gives back the text, exactly if no line of the text ends with all of the marker but a border;
and a border has eight digits at most. -/
theorem splitAtMarker_eq_split_iff {marker t : Text} (hmarker : IsMarker marker)
    (habsent : Text.contains marker t = false) :
    (splitAtMarker marker t = split t ↔
      ∀ k, 0 < k → k ≤ 8 → marker.take k = marker.drop (36 - k) →
        ¬ marker.take (36 - k) ++ ['\n'] <:+: t) ∧
    (join (splitAtMarker marker t) = t ↔ splitAtMarker marker t = split t) := by
  have hlacks : ¬ marker <:+: t := fun hwithin => by
    rw [Text.contains_iff.mpr hwithin] at habsent
    cases habsent
  have hjoin : join (splitAtMarker marker t) = t ↔ splitAtMarker marker t = split t := by
    constructor
    · intro hjoin
      exact splitAtMarker_eq_split_of_not_astray hmarker.ne_nil
        ((join_splitAtMarker_eq_iff hmarker.ne_nil).mp hjoin)
    · intro hsplit
      rw [hsplit, join_split]
  refine ⟨?_, hjoin⟩
  rw [← hjoin, join_splitAtMarker_eq_iff hmarker.ne_nil, astray_iff hmarker.newline_not_mem hlacks]
  constructor
  · intro hclear k hpositive hshort hborder hline
    refine hclear ⟨k, hpositive, by rw [hmarker.1]; omega, ?_, ?_⟩
    · rwa [HasBorder, hmarker.1]
    · rwa [hmarker.1]
  · rintro hclear ⟨k, hpositive, hlong, hborder, hline⟩
    have hshort := hmarker.border_le hlong hborder
    rw [HasBorder, hmarker.1] at hborder
    rw [hmarker.1] at hline
    exact hclear k hpositive hshort hborder hline

/-- A marker with the longest border there is. -/
def borderedMarker : Text := "abcdefab-0000-4000-8000-0000abcdefab".toList

/-- A line that ends with all of it but its border. -/
def runningLine : Text := "abcdefab-0000-4000-8000-0000\n".toList

/-- **Not to contain the marker is not enough**: that line does not, and is cut where it has no line
feed. -/
theorem not_split_at_bordered :
    IsMarker borderedMarker ∧ Text.contains borderedMarker runningLine = false ∧
      splitAtMarker borderedMarker runningLine =
        ["\n".toList, "-0000-4000-8000-0000abcdefab".toList] ∧
      split runningLine = [runningLine] ∧
      join (splitAtMarker borderedMarker runningLine) ≠ runningLine := by
  refine ⟨?_, by decide, by decide, by decide, by decide⟩
  unfold IsMarker
  decide

/-- The same line with a blank at its end, and one that ends with less of the marker. -/
def harmlessLines : Text := "abcdefab-0000-4000-8000-0000 \nabcdefab-\n".toList

theorem split_at_bordered :
    IsMarker borderedMarker ∧ Text.contains borderedMarker harmlessLines = false ∧
      splitAtMarker borderedMarker harmlessLines = split harmlessLines ∧
      join (splitAtMarker borderedMarker harmlessLines) = harmlessLines := by
  have hmarker : IsMarker borderedMarker := by
    unfold IsMarker
    decide
  have habsent : Text.contains borderedMarker harmlessLines = false := by decide
  obtain ⟨hsplit, hjoin⟩ := splitAtMarker_eq_split_iff hmarker habsent
  -- its borders have two and eight characters
  have hends : ∀ k ∈ List.range 9, 0 < k →
      borderedMarker.take k = borderedMarker.drop (36 - k) →
        Text.contains (borderedMarker.take (36 - k) ++ ['\n']) harmlessLines = false := by decide
  have hclear : splitAtMarker borderedMarker harmlessLines = split harmlessLines := by
    refine hsplit.mpr fun k hpositive hshort hborder hline => ?_
    have hnone := hends k (List.mem_range.mpr (Nat.lt_succ_of_le hshort)) hpositive hborder
    rw [Text.contains_iff.mpr hline] at hnone
    cases hnone
  exact ⟨hmarker, habsent, hclear, hjoin.mpr hclear⟩

end Fragment
end NotebookTidy
