import Mathlib.Data.List.Forall2
import NotebookTidy.Directive.Segments
import NotebookTidy.Proofs.TextPieces

/-!
# Segments that a text is cut into

Segments are **proper** if they are what their text is cut into: no directive hides in the code,
each directive is one line, and what is followed by something ends with a line feed.  A text's
segments are proper (`proper_split`), proper segments are their text's (`split_join`), and they stay
proper when each code segment is replaced by code without directives (`Proper.mapCode`).
-/

namespace NotebookTidy

/-! ## Directives -/

theorem not_blank_of_mem_directiveMarks :
    ∀ c ∈ directiveMarks, Text.isBlank c = false ∧ c ≠ '\n' ∧ c ≠ '\r' :=
  List.forall_iff_forall_mem.mp (by decide)

/-- A line is a directive if its first character is a mark. -/
theorem isDirective_cons (c : Char) (rest : Text) :
    isDirective (c :: rest) = directiveMarks.contains c := by
  rw [isDirective]
  cases htrimmed : Text.trimEnd (c :: rest) with
  | nil =>
    -- a trimmed line is empty only if all of it is blank, the first character too
    have hblank : Text.isBlank c = true :=
      List.rdropWhile_eq_nil_iff.mp htrimmed c List.mem_cons_self
    by_cases hmark : c ∈ directiveMarks
    · rw [(not_blank_of_mem_directiveMarks c hmark).1] at hblank
      cases hblank
    · simp [hmark]
  | cons d front =>
    obtain ⟨more, hmore⟩ := Text.trimEnd_isPrefix (c :: rest)
    rw [htrimmed, List.cons_append] at hmore
    rw [(List.cons.inj hmore).1]

/-- A directive starts with a mark. -/
theorem mark_of_isDirective {line : Text} (h : isDirective line = true) :
    ∃ c rest, line = c :: rest ∧ c ∈ directiveMarks := by
  cases line with
  | nil => cases h
  | cons c rest =>
    rw [isDirective_cons] at h
    exact ⟨c, rest, rfl, by simpa using h⟩

/-- No line of the text is a directive. -/
def Plain (t : Text) : Prop := ∀ fragment ∈ Fragment.split t, isDirective fragment = false

theorem plain_nil : Plain [] := fun _ h => nomatch h

namespace Segments

open Fragment (Closed Canonical)

/-! ## Proper segments -/

/-- Directives and code that a text is cut into after its head. -/
def ProperTail : List (Text × Text) → Prop
  | [] => True
  | (directive, code) :: rest =>
    isDirective directive = true ∧ Fragment.split directive = [directive] ∧ Plain code ∧
      (code ≠ [] ∨ rest ≠ [] → Closed directive) ∧ (rest ≠ [] → Closed code) ∧ ProperTail rest

/-- **Segments that a text is cut into.** -/
def Proper (s : Segments) : Prop :=
  Plain s.head ∧ (s.tail ≠ [] → Closed s.head) ∧ ProperTail s.tail

/-- Lines that are no directives belong to the code they stand in. -/
theorem ofLines_append {lines : List Text} (h : ∀ line ∈ lines, isDirective line = false)
    (more : List Text) :
    ofLines (lines ++ more) = ⟨lines.flatten ++ (ofLines more).head, (ofLines more).tail⟩ := by
  induction lines with
  | nil => rfl
  | cons line rest ih =>
    obtain ⟨hline, hrest⟩ := List.forall_mem_cons.mp h
    simp [ofLines, hline, ih hrest]

/-- Plain code in front of a text goes to the head of its segments. -/
theorem split_append {code t : Text} (hplain : Plain code) (hclosed : t ≠ [] → Closed code) :
    split (code ++ t) = ⟨code ++ (split t).head, (split t).tail⟩ := by
  have hcut : Fragment.split (code ++ t) = Fragment.split code ++ Fragment.split t := by
    by_cases ht : t = []
    · rw [ht, List.append_nil, Fragment.split_nil, List.append_nil]
    · exact Fragment.split_append (hclosed ht) t
  rw [split, hcut, ofLines_append hplain]
  rw [show (Fragment.split code).flatten = code from Fragment.join_split code]
  rfl

/-- The first line after the head is the first directive. -/
theorem fragments_joinTail {directive code : Text} {rest : List (Text × Text)}
    (h : ProperTail ((directive, code) :: rest)) :
    Fragment.split (joinTail ((directive, code) :: rest)) =
      directive :: Fragment.split (code ++ joinTail rest) := by
  obtain ⟨-, hline, -, hclosed, -, -⟩ := h
  rw [joinTail, List.append_assoc]
  by_cases hmore : code ≠ [] ∨ rest ≠ []
  · rw [Fragment.split_append (hclosed hmore), hline, List.singleton_append]
  · rw [not_or, not_ne_iff, not_ne_iff] at hmore
    rw [hmore.1, hmore.2]
    simpa [joinTail] using hline

theorem split_joinTail {tail : List (Text × Text)} (h : ProperTail tail) :
    split (joinTail tail) = ⟨[], tail⟩ := by
  induction tail with
  | nil => rfl
  | cons entry rest ih =>
    obtain ⟨directive, code⟩ := entry
    have hcut := fragments_joinTail h
    obtain ⟨hdirective, -, hplain, -, hclosed, hrest⟩ := h
    have hcode : split (code ++ joinTail rest) = ⟨code, rest⟩ := by
      rw [split_append hplain fun hne => hclosed fun hnil => hne (by rw [hnil]; rfl), ih hrest,
        List.append_nil]
    rw [split, hcut, ofLines, if_pos hdirective]
    change (⟨[], (directive, (split _).head) :: (split _).tail⟩ : Segments) = _
    rw [hcode]

/-- **Proper segments are what their text is cut into.** -/
theorem split_join {s : Segments} (h : s.Proper) : split s.join = s := by
  obtain ⟨head, tail⟩ := s
  obtain ⟨hplain, hclosed, htail⟩ := h
  rw [join, split_append hplain fun hne => hclosed fun hnil => hne (by rw [hnil]; rfl),
    split_joinTail htail, List.append_nil]

/-- The segments of canonical lines are proper, and none are left without lines. -/
theorem proper_ofLines {lines : List Text} (h : Canonical lines) : (ofLines lines).Proper := by
  induction lines with
  | nil => exact ⟨plain_nil, fun hne => absurd rfl hne, trivial⟩
  | cons line lines ih =>
    obtain ⟨hline, hclosed, hlines⟩ := h.first
    obtain ⟨hplain, hhead, htail⟩ := ih hlines
    have hmore (hmore : (ofLines lines).head ≠ [] ∨ (ofLines lines).tail ≠ []) : Closed line := by
      refine hclosed ?_
      rintro rfl
      rcases hmore with hne | hne
      · exact hne rfl
      · exact hne rfl
    by_cases hdirective : isDirective line = true
    · rw [ofLines, if_pos hdirective]
      exact ⟨plain_nil, fun _ => Fragment.closed_nil, hdirective, hline, hplain, hmore, hhead, htail⟩
    · rw [ofLines, if_neg hdirective]
      refine ⟨?_, fun hne => (hmore (Or.inr hne)).append (hhead hne), htail⟩
      intro fragment hfragment
      by_cases hnil : (ofLines lines).head = []
      · simp only [hnil, List.append_nil, hline, List.mem_singleton] at hfragment
        rw [hfragment]
        exact Bool.eq_false_iff.mpr hdirective
      · rw [Fragment.split_append (hmore (Or.inl hnil)), hline] at hfragment
        rcases List.mem_cons.mp hfragment with rfl | hfragment
        · exact Bool.eq_false_iff.mpr hdirective
        · exact hplain fragment hfragment

/-- **A text is cut into proper segments.** -/
theorem proper_split (t : Text) : (split t).Proper := proper_ofLines (Fragment.canonical_split t)

/-! ## Code replaced segment by segment -/

/-- **Code that can stand where other code stood**: where there was none there is none, it makes no
directives, and it cuts off no line feed at the end. -/
structure Fits (old new : Text) : Prop where
  /-- Where there was no code there is none. -/
  nil : old = [] → new = []
  /-- No directive comes about. -/
  plain : Plain old → Plain new
  /-- A line feed at the end stays. -/
  closed : Closed old → Closed new

theorem ProperTail.replaced {tail tail' : List (Text × Text)} (h : ProperTail tail)
    (hdirectives : tail'.map Prod.fst = tail.map Prod.fst)
    (hcode : List.Forall₂ Fits (tail.map Prod.snd) (tail'.map Prod.snd)) : ProperTail tail' := by
  induction tail generalizing tail' with
  | nil =>
    rw [List.map_eq_nil_iff.mp hdirectives]
    trivial
  | cons entry rest ih =>
    cases tail' with
    | nil => cases hdirectives
    | cons entry' rest' =>
      obtain ⟨directive, code⟩ := entry
      obtain ⟨directive', code'⟩ := entry'
      simp only [List.map_cons, List.cons.injEq] at hdirectives
      obtain ⟨rfl, hothers⟩ := hdirectives
      obtain ⟨hdirective, hline, hplain, hmore, hmore', hrest⟩ := h
      cases hcode with
      | cons hfits hcode =>
        have hnone : rest' ≠ [] → rest ≠ [] := by
          rintro hne rfl
          exact hne (List.map_eq_nil_iff.mp hothers)
        refine ⟨hdirective, hline, hfits.plain hplain, fun hne => hmore ?_, fun hne => ?_,
          ih hrest hothers hcode⟩
        · exact hne.imp (fun hne heq => hne (hfits.nil heq)) hnone
        · exact hfits.closed (hmore' (hnone hne))

/-- **Proper segments stay proper** when code that fits is put in the place of each segment. -/
theorem Proper.replaced {s s' : Segments} (h : s.Proper)
    (hdirectives : s'.directives = s.directives) (hcode : List.Forall₂ Fits s.code s'.code) :
    s'.Proper := by
  obtain ⟨hplain, hends, htail⟩ := h
  cases hcode with
  | cons hhead hcode =>
    refine ⟨hhead.plain hplain, fun hne => hhead.closed (hends ?_),
      htail.replaced hdirectives hcode⟩
    intro hnil
    rw [directives, directives, hnil] at hdirectives
    exact hne (List.map_eq_nil_iff.mp hdirectives)

/-- The segments with other code; the directives stay as they are. -/
def mapCode (f : Text → Text) (s : Segments) : Segments :=
  ⟨f s.head, s.tail.map fun (directive, code) => (directive, f code)⟩

/-- Proper segments stay proper under a function that makes no directives and cuts off no line feed
at the end. -/
theorem Proper.mapCode {s : Segments} (h : s.Proper) {f : Text → Text} (hnil : f [] = [])
    (hplain : ∀ code, Plain code → Plain (f code))
    (hclosed : ∀ code, Closed code → Closed (f code)) : (s.mapCode f).Proper := by
  have hfits (code : Text) : Fits code (f code) :=
    ⟨fun heq => by rw [heq, hnil], hplain code, hclosed code⟩
  refine h.replaced ?_ (.cons (hfits s.head) ?_)
  · simp [directives, Segments.mapCode, Function.comp_def]
  · simp [Segments.mapCode, hfits]

/-! ## Words in segments -/

theorem infix_joinTail {tail : List (Text × Text)} (h : ProperTail tail) {word : Text}
    (hne : word ≠ []) (hword : '\n' ∉ word) (hwithin : word <:+: joinTail tail) :
    ∃ entry ∈ tail, word <:+: entry.1 ∨ word <:+: entry.2 := by
  induction tail with
  | nil => exact absurd (List.infix_nil.mp hwithin) hne
  | cons entry rest ih =>
    obtain ⟨directive, code⟩ := entry
    obtain ⟨-, -, -, hmore, hmore', hrest⟩ := h
    -- what is followed by nothing need not end with a line feed
    have happend {a b : Text} (hclosed : b ≠ [] → Closed a) (h : word <:+: a ++ b) :
        word <:+: a ∨ word <:+: b := by
      by_cases hb : b = []
      · rw [hb, List.append_nil] at h
        exact Or.inl h
      · exact (hclosed hb).infix_append hword h
    have hfirst (hrest : code ++ joinTail rest ≠ []) : Closed directive := by
      refine hmore ?_
      by_cases hcode : code = []
      · refine Or.inr fun hnil => hrest ?_
        rw [hcode, hnil]
        rfl
      · exact Or.inl hcode
    rw [joinTail, List.append_assoc] at hwithin
    rcases happend hfirst hwithin with h | h
    · exact ⟨_, List.mem_cons_self, Or.inl h⟩
    · rcases happend (fun hne => hmore' fun hnil => hne (by rw [hnil]; rfl)) h with h | h
      · exact ⟨_, List.mem_cons_self, Or.inr h⟩
      · obtain ⟨entry, hentry, h⟩ := ih hrest h
        exact ⟨entry, List.mem_cons_of_mem _ hentry, h⟩

/-- **A word without a line feed is in one of the pieces** that proper segments consist of. -/
theorem Proper.infix_join {s : Segments} (h : s.Proper) {word : Text} (hne : word ≠ [])
    (hword : '\n' ∉ word) (hwithin : word <:+: s.join) :
    word <:+: s.head ∨ ∃ entry ∈ s.tail, word <:+: entry.1 ∨ word <:+: entry.2 := by
  obtain ⟨head, tail⟩ := s
  obtain ⟨-, hclosed, htail⟩ := h
  by_cases hnil : tail = []
  · subst hnil
    rw [join, joinTail, List.append_nil] at hwithin
    exact Or.inl hwithin
  · exact ((hclosed hnil).infix_append hword hwithin).imp_right (infix_joinTail htail hne hword)

theorem infix_joinTail_of_mem {tail : List (Text × Text)} {entry : Text × Text}
    (h : entry ∈ tail) : entry.1 <:+: joinTail tail ∧ entry.2 <:+: joinTail tail := by
  induction tail with
  | nil => cases h
  | cons first rest ih =>
    obtain ⟨directive, code⟩ := first
    rcases List.mem_cons.mp h with rfl | h
    · exact ⟨⟨[], code ++ joinTail rest, by simp [joinTail]⟩,
        ⟨directive, joinTail rest, rfl⟩⟩
    · have hrest : joinTail rest <:+: joinTail ((directive, code) :: rest) :=
        (List.suffix_append (directive ++ code) (joinTail rest)).isInfix
      exact (ih h).imp (fun h => h.trans hrest) fun h => h.trans hrest

end Segments
end NotebookTidy
