import NotebookTidy.Formatter.Spacing
import NotebookTidy.Proofs.TextPieces

/-!
# Spaced lines

Spacing a line a second time changes nothing (`spaceLine_spaceLine`): the scan finds the same sign
again, because the blanks that came or went before it are nothing to the scan.  Nor does spacing
make a line faulty or a name out of two (`infix_spaceLine`), so what the formatter made of code it
takes again, and as it is.
-/

namespace NotebookTidy
namespace Spacing

/-! ## The scan for the assignment sign -/

/-- The number of open brackets after a character, unless it ends the scan. -/
def advance (depth : Int) (c : Char) : Option Int :=
  if c = '(' ∨ c = '[' ∨ c = '{' then some (depth + 1)
  else if c = ')' ∨ c = ']' ∨ c = '}' then some (depth - 1)
  else if c = '"' ∨ c = '\'' ∨ c = '#' then none
  else if c = '=' ∧ depth = 0 then none
  else some depth

/-- The number of open brackets after a text in which nothing ends the scan. -/
def passes (depth : Int) (t : Text) : Option Int := t.foldlM advance depth

theorem passes_append (depth : Int) (a b : Text) :
    passes depth (a ++ b) = (passes depth a).bind fun between => passes between b :=
  List.foldlM_append

/-- A blank is nothing to the scan. -/
theorem advance_blank {c : Char} (hc : Text.isBlank c = true) (depth : Int) :
    advance depth c = some depth := by
  have hne {d : Char} (hd : Text.isBlank d = false) : c ≠ d := by
    rintro rfl
    rw [hc] at hd
    cases hd
  simp [advance, hne (d := '(') rfl, hne (d := '[') rfl, hne (d := '{') rfl, hne (d := ')') rfl,
    hne (d := ']') rfl, hne (d := '}') rfl, hne (d := '"') rfl, hne (d := '\'') rfl,
    hne (d := '#') rfl, hne (d := '=') rfl]

theorem passes_blanks {blanks : Text} (h : ∀ c ∈ blanks, Text.isBlank c = true) (depth : Int) :
    passes depth blanks = some depth := by
  induction blanks with
  | nil => rfl
  | cons c rest ih =>
    obtain ⟨hc, hrest⟩ := List.forall_mem_cons.mp h
    rw [passes, List.foldlM_cons, advance_blank hc]
    exact ih hrest

/-- The scan passes a text as it does without the blanks at its end. -/
theorem passes_trimEnd (depth : Int) (t : Text) :
    passes depth (Text.trimEnd t) = passes depth t := by
  obtain ⟨blanks, ht, hblanks⟩ := Text.exists_eq_trimEnd_append t
  have hpasses : passes depth t = (passes depth (Text.trimEnd t)).bind some := by
    conv_lhs => rw [ht, passes_append]
    exact congrArg _ (funext fun between => passes_blanks hblanks between)
  rw [hpasses, Option.bind_fun_some]

/-- A character before an assignment sign, or none, that makes no comparison of it. -/
def MayPrecede (read : Text) : Prop :=
  ¬ read.head?.any isComparison = true

/-- The scan goes on after a character that does not end it. -/
theorem assignment?_advance {depth depth' : Int} {c : Char} (h : advance depth c = some depth')
    (read rest : Text) :
    assignment? read depth (c :: rest) = assignment? (c :: read) depth' rest := by
  unfold advance at h
  rw [assignment?]
  split_ifs at h ⊢ <;> rw [Option.some.inj h]

/-- The scan ends with a find at a sign only, and one that makes no comparison. -/
theorem assignment?_end {depth : Int} {c : Char} (h : advance depth c = none) {read rest : Text}
    {found : Text × Text} (hfound : assignment? read depth (c :: rest) = some found) :
    c = '=' ∧ depth = 0 ∧ found = (read.reverse, rest) ∧ MayPrecede read ∧
      rest.head? ≠ some '=' := by
  unfold advance at h
  rw [assignment?] at hfound
  split_ifs at h hfound with hopen hclose hquote hsign hcomparison
  rw [not_or] at hcomparison
  exact ⟨hsign.1, hsign.2, (Option.some.inj hfound).symm, hcomparison.1, hcomparison.2⟩

/-- **What the scan finds**: a sign after a text that it passes, and that is no comparison. -/
theorem of_assignment? {read line left right : Text} {depth : Int}
    (h : assignment? read depth line = some (left, right)) :
    ∃ before, line = before ++ '=' :: right ∧ left = read.reverse ++ before ∧
      passes depth before = some 0 ∧ MayPrecede (before.reverse ++ read) ∧
      right.head? ≠ some '=' := by
  induction line generalizing read depth with
  | nil => cases h
  | cons c rest ih =>
    cases hadvance : advance depth c with
    | none =>
      obtain ⟨rfl, rfl, hfound, hmay, hright⟩ := assignment?_end hadvance h
      cases hfound
      exact ⟨[], rfl, (List.append_nil _).symm, rfl, hmay, hright⟩
    | some depth' =>
      rw [assignment?_advance hadvance] at h
      obtain ⟨before, rfl, rfl, hzero, hmay, hright⟩ := ih h
      refine ⟨c :: before, rfl, by simp, ?_, by simpa using hmay, hright⟩
      rw [passes, List.foldlM_cons, hadvance]
      exact hzero

/-- **Where the scan gets to a sign**, it finds it. -/
theorem assignment?_append {read before right : Text} {depth : Int}
    (hpasses : passes depth before = some 0) (hmay : MayPrecede (before.reverse ++ read))
    (hright : right.head? ≠ some '=') :
    assignment? read depth (before ++ '=' :: right) = some (read.reverse ++ before, right) := by
  induction before generalizing read depth with
  | nil =>
    cases hpasses
    have hcomparison : ¬ (read.head?.any isComparison = true ∨ right.head? = some '=') :=
      not_or.mpr ⟨hmay, hright⟩
    rw [List.nil_append, assignment?, if_neg (by decide), if_neg (by decide), if_neg (by decide),
      if_pos ⟨rfl, rfl⟩, if_neg hcomparison, List.append_nil]
  | cons c rest ih =>
    rw [passes, List.foldlM_cons] at hpasses
    obtain ⟨depth', hadvance, hrest⟩ := Option.bind_eq_some_iff.mp hpasses
    rw [List.cons_append, assignment?_advance hadvance, ih hrest (by simpa using hmay)]
    simp

/-! ## Lines that are spaced -/

/-- **How a line is spaced**: it has no sign to be spaced and is only trimmed, or the text before
the sign and the text after it come closer. -/
theorem spaceLine_cases (line : Text) :
    (assignment? [] 0 (Text.trimEnd line) = none ∧ spaceLine line = Text.trimEnd line) ∨
      ∃ left right, Text.trimEnd line = left ++ '=' :: right ∧ passes 0 left = some 0 ∧
        right.head? ≠ some '=' ∧
        spaceLine line = Text.trimEnd left ++ [' ', '=', ' '] ++ Text.trimStart right := by
  cases hfound : assignment? [] 0 (Text.trimEnd line) with
  | none => exact Or.inl ⟨rfl, by rw [spaceLine, hfound]⟩
  | some found =>
    obtain ⟨left, right⟩ := found
    obtain ⟨before, hline, hleft, hpasses, -, hright⟩ := of_assignment? hfound
    rw [List.reverse_nil, List.nil_append] at hleft
    subst hleft
    exact Or.inr ⟨left, right, hline, hpasses, hright, by rw [spaceLine, hfound]⟩

/-- What stands right of the sign in a trimmed line is empty, or keeps its last character. -/
theorem right_cases {line left right : Text} (h : Text.trimEnd line = left ++ '=' :: right) :
    right = [] ∨ ∃ front c, Text.trimStart right = front ++ [c] ∧ Text.isBlank c = false := by
  rcases List.eq_nil_or_concat' right with rfl | ⟨front, c, rfl⟩
  · exact Or.inl rfl
  · have hblank : Text.isBlank c = false := by
      refine Text.not_blank_of_trimEnd (u := left ++ '=' :: front) (h.trans ?_)
      rw [List.append_assoc, List.cons_append]
    exact Or.inr ⟨Text.trimStart front, c, Text.trimStart_append_cons hblank front [], hblank⟩

/-- A spaced line, trimmed: the sign is where it was put, and what follows it starts with no sign
and is what followed it, up to blanks. -/
theorem trimEnd_spaced {line left right : Text} (h : Text.trimEnd line = left ++ '=' :: right) :
    ∃ after, Text.trimEnd (Text.trimEnd left ++ [' ', '=', ' '] ++ Text.trimStart right) =
        (Text.trimEnd left ++ [' ']) ++ '=' :: after ∧
      after.head? ≠ some '=' ∧ Text.trimStart after = Text.trimStart right := by
  rcases right_cases h with rfl | ⟨front, c, hright, hc⟩
  · refine ⟨[], ?_, nofun, rfl⟩
    have hsplit : Text.trimEnd left ++ [' ', '=', ' '] ++ Text.trimStart [] =
        (Text.trimEnd left ++ [' ', '=']) ++ [' '] := by simp
    have hsplit' : Text.trimEnd left ++ [' ', '='] = (Text.trimEnd left ++ [' ']) ++ ['='] := by
      simp
    rw [hsplit, Text.trimEnd_snoc_blank rfl, hsplit', Text.trimEnd_snoc rfl]
  · refine ⟨' ' :: Text.trimStart right, ?_, nofun, ?_⟩
    · rw [hright, ← List.append_assoc, Text.trimEnd_snoc hc]
      simp
    · rw [Text.trimStart_cons, if_pos (by decide)]
      exact List.dropWhile_idempotent Text.isBlank right

/-- **A spaced line is spaced.** -/
theorem spaceLine_spaceLine (line : Text) : spaceLine (spaceLine line) = spaceLine line := by
  rcases spaceLine_cases line with ⟨hfound, hline⟩ | ⟨left, right, htrimmed, hpasses, -, hline⟩
  · rw [hline, spaceLine, Text.trimEnd_trimEnd, hfound]
  · obtain ⟨after, hspaced, hafter, hright⟩ := trimEnd_spaced htrimmed
    have hmay : MayPrecede ((Text.trimEnd left ++ [' ']).reverse ++ []) := by
      simp [MayPrecede, isComparison]
    have hscan : passes 0 (Text.trimEnd left ++ [' ']) = some 0 := by
      rw [passes_append, passes_trimEnd, hpasses]
      rfl
    have hleft : Text.trimEnd (Text.trimEnd left ++ [' ']) = Text.trimEnd left := by
      rw [Text.trimEnd_snoc_blank (by decide), Text.trimEnd_trimEnd]
    rw [hline, spaceLine, hspaced, assignment?_append hscan hmay hafter]
    simp only [List.reverse_nil, List.nil_append, hleft, hright]

/-- A spaced line has no characters of its own but spaces. -/
theorem mem_spaceLine {line : Text} {c : Char} (h : c ∈ spaceLine line) : c = ' ' ∨ c ∈ line := by
  have hsub := (Text.trimEnd_isPrefix line).subset
  rcases spaceLine_cases line with ⟨-, hline⟩ | ⟨left, right, htrimmed, -, -, hline⟩
  · rw [hline] at h
    exact Or.inr (hsub h)
  · rw [htrimmed] at hsub
    rw [hline] at h
    simp only [List.mem_append, List.mem_cons, List.not_mem_nil, or_false] at h
    rcases h with (h | rfl | rfl | rfl) | h
    · exact Or.inr (hsub (List.mem_append_left _ ((Text.trimEnd_isPrefix left).subset h)))
    · exact Or.inl rfl
    · exact Or.inr (hsub (List.mem_append_right _ List.mem_cons_self))
    · exact Or.inl rfl
    · refine Or.inr (hsub (List.mem_append_right _ (List.mem_cons_of_mem _ ?_)))
      exact (Text.trimStart_isSuffix right).subset h

/-- A spaced line ends with a space or with a character that is not blank. -/
theorem last_spaceLine {line : Text} {c : Char} (h : c ∈ (spaceLine line).getLast?) :
    c = ' ' ∨ Text.isBlank c = false := by
  obtain ⟨front, hfront⟩ := List.getLast?_eq_some_iff.mp h
  rcases spaceLine_cases line with ⟨-, hline⟩ | ⟨left, right, htrimmed, -, -, hline⟩
  · rw [hline] at hfront
    exact Or.inr (Text.not_blank_of_trimEnd hfront)
  · rw [hline] at hfront
    rcases right_cases htrimmed with rfl | ⟨front', d, hright, hd⟩
    · refine Or.inl ?_
      have hlast := congrArg List.getLast? hfront
      simpa [eq_comm] using hlast
    · refine Or.inr ?_
      have hlast := congrArg List.getLast? hfront
      rw [hright] at hlast
      simp only [← List.append_assoc, List.getLast?_concat, Option.some.injEq] at hlast
      rw [← hlast]
      exact hd

/-- **A word without a space is in a spaced line only if it was in the line.** -/
theorem infix_spaceLine {line word : Text} (h : word <:+: spaceLine line) (hword : ' ' ∉ word) :
    word <:+: line := by
  have htrim := (Text.trimEnd_isPrefix line).isInfix
  rcases spaceLine_cases line with ⟨-, hline⟩ | ⟨left, right, htrimmed, -, -, hline⟩
  · rw [hline] at h
    exact h.trans htrim
  · rw [htrimmed] at htrim
    refine List.IsInfix.trans ?_ htrim
    have hsplit : Text.trimEnd left ++ [' ', '=', ' '] ++ Text.trimStart right =
        Text.trimEnd left ++ ' ' :: (['='] ++ ' ' :: Text.trimStart right) := by simp
    rw [hline, hsplit] at h
    rcases Text.infix_append_cons h hword with h | h
    · exact (h.trans (Text.trimEnd_isPrefix left).isInfix).trans (List.prefix_append _ _).isInfix
    · rcases Text.infix_append_cons h hword with h | h
      · exact h.trans ⟨left, right, by simp⟩
      · refine (h.trans (Text.trimStart_isSuffix right).isInfix).trans ?_
        exact ((List.suffix_cons '=' right).trans (List.suffix_append left _)).isInfix

/-! ## Faulty lines -/

theorem isFaulty_eq (line : Text) :
    isFaulty line = ((Text.trimStart line).head?.any directiveMarks.contains ||
      Text.contains ['(', ':'] line) := by
  rw [isFaulty]
  cases Text.trimStart line <;> rfl

/-- **Spacing a line makes no fault.** -/
theorem isFaulty_spaceLine {line : Text} (h : isFaulty line = false) :
    isFaulty (spaceLine line) = false := by
  rw [isFaulty_eq, Bool.or_eq_false_iff] at h ⊢
  obtain ⟨hmark, hcolon⟩ := h
  refine ⟨?_, ?_⟩
  · obtain ⟨blanks, hline, -⟩ := Text.exists_eq_trimEnd_append line
    rcases spaceLine_cases line with ⟨-, hspaced⟩ | ⟨left, right, htrimmed, -, -, hspaced⟩
    · rw [hspaced]
      rcases List.eq_nil_or_concat' (Text.trimEnd line) with hnil | ⟨u, d, hsnoc⟩
      · rw [hnil]
        rfl
      · have hd := Text.not_blank_of_trimEnd hsnoc
        rw [hline, hsnoc, List.append_assoc, List.singleton_append, Text.head?_trimStart hd] at hmark
        rw [hsnoc, Text.head?_trimStart hd]
        exact hmark
    · rw [hspaced]
      rcases List.eq_nil_or_concat' (Text.trimEnd left) with hnil | ⟨u, d, hsnoc⟩
      · rw [hnil, List.nil_append, List.cons_append, Text.trimStart_cons, if_pos (by decide),
          List.cons_append, Text.trimStart_cons, if_neg (by decide)]
        rfl
      · have hd := Text.not_blank_of_trimEnd hsnoc
        obtain ⟨blanks', hleft, -⟩ := Text.exists_eq_trimEnd_append left
        rw [hline, htrimmed, hleft, hsnoc] at hmark
        simp only [List.append_assoc, List.cons_append] at hmark
        rw [Text.head?_trimStart hd] at hmark
        rw [hsnoc]
        simp only [List.append_assoc, List.cons_append]
        rw [Text.head?_trimStart hd]
        exact hmark
  · rw [← Bool.not_eq_true, Text.contains_iff] at hcolon ⊢
    exact fun hwithin => hcolon (infix_spaceLine hwithin (by decide))

end Spacing
end NotebookTidy
