import Mathlib.Data.List.DropRight
import NotebookTidy.Text.Decimal
import NotebookTidy.Text.Fragment

/-!
# Texts put together from pieces

What trimming, searching and cutting into fragments do to a text is known from its pieces.  A word
without a line feed does not cross one, and where a piece ends with a line feed nothing is cut that
would not be cut in the pieces alone (`Fragment.split_append`).

A numeral is such a piece: a run of decimal digits, at least one.  It stands for one number, also
where a text goes on behind it (`Decimal.eq_of_write_append`).
-/

namespace NotebookTidy

namespace Text

/-! ## Trimming -/

theorem trimEnd_snoc {c : Char} (h : isBlank c = false) (t : Text) :
    trimEnd (t ++ [c]) = t ++ [c] :=
  List.rdropWhile_concat_neg isBlank t c (by simp [h])

theorem trimEnd_snoc_blank {c : Char} (h : isBlank c = true) (t : Text) :
    trimEnd (t ++ [c]) = trimEnd t :=
  List.rdropWhile_concat_pos isBlank t c h

theorem trimEnd_append_blanks {c : Char} (h : isBlank c = false) {front blanks : Text}
    (hblanks : ∀ d ∈ blanks, isBlank d = true) :
    trimEnd (front ++ [c] ++ blanks) = front ++ [c] := by
  induction blanks using List.reverseRecOn with
  | nil => rw [List.append_nil, trimEnd_snoc h]
  | append_singleton blanks d ih =>
    rw [← List.append_assoc, trimEnd_snoc_blank (hblanks d (by simp)),
      ih fun d hd => hblanks d (List.mem_append_left _ hd)]

theorem trimEnd_trimEnd (t : Text) : trimEnd (trimEnd t) = trimEnd t :=
  List.rdropWhile_idempotent isBlank t

theorem trimEnd_isPrefix (t : Text) : trimEnd t <+: t := List.rdropWhile_prefix isBlank t

theorem trimStart_isSuffix (t : Text) : trimStart t <:+ t := List.dropWhile_suffix isBlank

/-- What trimming removes at the end is blank. -/
theorem exists_eq_trimEnd_append (t : Text) :
    ∃ blanks, t = trimEnd t ++ blanks ∧ ∀ c ∈ blanks, isBlank c = true :=
  ⟨t.rtakeWhile isBlank, List.rdropWhile_append_rtakeWhile.symm,
    fun _ hc => List.mem_rtakeWhile_imp hc⟩

/-- A trimmed text does not end with a blank. -/
theorem not_blank_of_trimEnd {t u : Text} {c : Char} (h : trimEnd t = u ++ [c]) :
    isBlank c = false := by
  cases hc : isBlank c with
  | false => rfl
  | true =>
    have htwice := trimEnd_trimEnd t
    rw [h, trimEnd_snoc_blank hc] at htwice
    have hlength := (trimEnd_isPrefix u).length_le
    rw [htwice, List.length_append, List.length_singleton] at hlength
    omega

/-- Blanks go from the start up to a character that is not blank. -/
theorem trimStart_append_cons {c : Char} (h : isBlank c = false) (a b : Text) :
    trimStart (a ++ c :: b) = trimStart a ++ c :: b := by
  induction a with
  | nil => rw [List.nil_append, trimStart_cons, h, trimStart_nil]; rfl
  | cons d a ih =>
    rw [List.cons_append, trimStart_cons, trimStart_cons, ih]
    split <;> rfl

/-- The first character that is not blank, where one is known. -/
theorem head?_trimStart {c : Char} (h : isBlank c = false) (a b : Text) :
    (trimStart (a ++ c :: b)).head? = (trimStart a).head?.or (some c) := by
  rw [trimStart_append_cons h, List.head?_append, List.head?_cons]

/-- Blanks go from the end down to a character that is not blank. -/
theorem trimEnd_append_cons {c : Char} (h : isBlank c = false) (a b : Text) :
    trimEnd (a ++ c :: b) = a ++ c :: trimEnd b := by
  have hcut := trimStart_append_cons h b.reverse a.reverse
  simp only [trimStart] at hcut
  simp [trimEnd, hcut]

/-- The first character of a text stays in its place if not all of the text is blank. -/
theorem head?_trimEnd {t : Text} (h : ∃ c ∈ t, isBlank c = false) :
    (trimEnd t).head? = t.head? := by
  obtain ⟨c, hmem, hc⟩ := h
  obtain ⟨a, b, rfl⟩ := List.append_of_mem hmem
  rw [trimEnd_append_cons hc, List.head?_append, List.head?_append]
  rfl

/-! ## Searching -/

theorem after?_eq_some_iff {word t rest : Text} :
    after? word t = some rest ↔ t = word ++ rest := by
  rw [after?, List.isPrefixOf?_eq_some_iff_append_eq, eq_comm]

theorem contains_iff {word t : Text} : contains word t = true ↔ word <:+: t := by
  induction t with
  | nil => simp [contains]
  | cons c rest ih => simp [contains, List.infix_cons_iff, ih]

/-- **A word does not cross a character that it lacks.** -/
theorem infix_append_cons {word a b : Text} {c : Char} (h : word <:+: a ++ c :: b)
    (hc : c ∉ word) : word <:+: a ∨ word <:+: b := by
  induction a with
  | nil =>
    rcases List.infix_cons_iff.mp h with h | h
    · rcases List.prefix_cons_iff.mp h with rfl | ⟨t, rfl, -⟩
      · exact Or.inl List.nil_infix
      · exact absurd List.mem_cons_self hc
    · exact Or.inr h
  | cons d a ih =>
    rcases List.infix_cons_iff.mp h with h | h
    · -- the word starts here, and ends before the character
      refine Or.inl ?_
      rcases List.prefix_or_prefix_of_prefix h (List.prefix_append (d :: a) (c :: b)) with h | h'
      · exact h.isInfix
      · obtain ⟨t, rfl⟩ := h'
        have ht : t <+: c :: b := (List.prefix_append_right_inj (d :: a)).mp h
        rcases List.prefix_cons_iff.mp ht with rfl | ⟨t, rfl, -⟩
        · exact (List.append_nil (d :: a)).symm ▸ List.infix_rfl
        · exact absurd (List.mem_append_right _ List.mem_cons_self) hc
    · exact (ih h).imp_left fun h => h.trans (List.suffix_cons d a).isInfix

end Text

namespace Fragment

/-! ## Fragments -/

/-- **Whole lines only**: the text is empty or ends with a line feed. -/
def Closed (t : Text) : Prop := ∀ c ∈ t.getLast?, c = '\n'

theorem closed_nil : Closed [] := fun _ hc => nomatch hc

theorem closed_line (t : Text) : Closed (t ++ ['\n']) := by
  intro c hc
  simpa [eq_comm] using hc

theorem Closed.append {a b : Text} (ha : Closed a) (hb : Closed b) : Closed (a ++ b) := by
  intro c hc
  rw [List.getLast?_append] at hc
  rcases hlast : b.getLast? with - | d
  · exact ha c (by simpa [hlast] using hc)
  · exact hb c (by simpa [hlast] using hc)

theorem Closed.eq_nil_or_line {t : Text} (h : Closed t) : t = [] ∨ ∃ body, t = body ++ ['\n'] := by
  rcases List.eq_nil_or_concat' t with rfl | ⟨body, c, rfl⟩
  · exact Or.inl rfl
  · rw [h c (by simp)]
    exact Or.inr ⟨body, rfl⟩

theorem split_ne_nil {t : Text} (h : t ≠ []) : split t ≠ [] := by
  cases t with
  | nil => exact absurd rfl h
  | cons c rest =>
    rw [split]
    split
    · exact List.cons_ne_nil _ _
    · split
      · exact List.cons_ne_nil _ _
      · exact List.cons_ne_nil _ _

/-- **Whole lines are cut by themselves.** -/
theorem split_append {a : Text} (h : Closed a) (b : Text) : split (a ++ b) = split a ++ split b := by
  induction a with
  | nil => rfl
  | cons c rest ih =>
    have hrest : Closed rest := by
      intro d hd
      refine h d ?_
      rw [List.getLast?_cons, Option.mem_def.mp hd]
      rfl
    by_cases hc : c = '\n'
    · subst hc
      rw [List.cons_append, split_newline, split_newline, ih hrest, List.cons_append]
    · have hne : rest ≠ [] := by
        rintro rfl
        exact hc (h c rfl)
      rw [List.cons_append, split, if_neg hc, split, if_neg hc, ih hrest]
      cases hsplit : split rest with
      | nil => exact absurd hsplit (split_ne_nil hne)
      | cons line lines => rfl

theorem split_of_not_mem {t : Text} (hne : t ≠ []) (h : '\n' ∉ t) : split t = [t] := by
  induction t with
  | nil => exact absurd rfl hne
  | cons c rest ih =>
    rw [List.mem_cons, not_or] at h
    obtain ⟨hc, hrest⟩ := h
    rw [split, if_neg (Ne.symm hc)]
    by_cases hnil : rest = []
    · rw [hnil, split_nil]
    · rw [ih hnil hrest]

theorem split_line {body : Text} (h : '\n' ∉ body) : split (body ++ ['\n']) = [body ++ ['\n']] := by
  induction body with
  | nil => rfl
  | cons c rest ih =>
    rw [List.mem_cons, not_or] at h
    obtain ⟨hc, hrest⟩ := h
    rw [List.cons_append, split, if_neg (Ne.symm hc), ih hrest]

/-- **What is cut is in canonical form.** -/
theorem canonical_split (t : Text) : Canonical (split t) := by
  induction t with
  | nil => trivial
  | cons c rest ih =>
    by_cases hc : c = '\n'
    · subst hc
      rw [split_newline]
      have hline : IsWholeLine ['\n'] := ⟨[], List.not_mem_nil, rfl⟩
      cases hsplit : split rest with
      | nil => exact Or.inl hline
      | cons line lines => exact ⟨hline, hsplit ▸ ih⟩
    · have hcons {line : Text} (h : IsWholeLine line) : IsWholeLine (c :: line) := by
        obtain ⟨body, hbody, rfl⟩ := h
        exact ⟨c :: body, by simp [Ne.symm hc, hbody], rfl⟩
      rw [split, if_neg hc]
      cases hsplit : split rest with
      | nil => exact Or.inr ⟨List.cons_ne_nil _ _, by simpa using Ne.symm hc⟩
      | cons line lines =>
        rw [hsplit] at ih
        cases lines with
        | nil =>
          rcases ih with h | ⟨-, h⟩
          · exact Or.inl (hcons h)
          · exact Or.inr ⟨List.cons_ne_nil _ _, by simp [Ne.symm hc, h]⟩
        | cons next lines => exact ⟨hcons ih.1, ih.2⟩

/-- The first of canonical fragments is cut no further, and whole if others follow. -/
theorem Canonical.first {line : Text} {lines : List Text} (h : Canonical (line :: lines)) :
    split line = [line] ∧ (lines ≠ [] → Closed line) ∧ Canonical lines := by
  cases lines with
  | nil =>
    refine ⟨?_, fun hne => absurd rfl hne, trivial⟩
    rcases h with ⟨body, hbody, rfl⟩ | ⟨hne, hfeed⟩
    · exact split_line hbody
    · exact split_of_not_mem hne hfeed
  | cons next lines =>
    obtain ⟨⟨body, hbody, rfl⟩, hrest⟩ := h
    exact ⟨split_line hbody, fun _ => closed_line body, hrest⟩

/-- A canonical fragment is a whole line or has no line feed. -/
theorem Canonical.of_mem {fragments : List Text} (h : Canonical fragments) {fragment : Text}
    (hmem : fragment ∈ fragments) : IsWholeLine fragment ∨ '\n' ∉ fragment := by
  induction fragments with
  | nil => cases hmem
  | cons line lines ih =>
    rcases List.mem_cons.mp hmem with rfl | hmem
    · cases lines with
      | nil => exact h.imp_right And.right
      | cons next lines => exact Or.inl h.1
    · exact ih h.first.2.2 hmem

/-- A word without a line feed is in one of two pieces if the first has whole lines only. -/
theorem Closed.infix_append {word a b : Text} (ha : Closed a) (hword : '\n' ∉ word)
    (h : word <:+: a ++ b) : word <:+: a ∨ word <:+: b := by
  rcases ha.eq_nil_or_line with rfl | ⟨body, rfl⟩
  · exact Or.inr h
  · rw [List.append_assoc] at h
    refine (Text.infix_append_cons h hword).imp_left fun h => ?_
    exact h.trans (List.prefix_append body ['\n']).isInfix

end Fragment

namespace Text

/-! ## Lines -/

theorem withoutLineEnd_isPrefix (fragment : Text) : withoutLineEnd fragment <+: fragment := by
  unfold withoutLineEnd
  split
  · next body h =>
    rw [← List.reverse_reverse fragment, h]
    simp
  · next body _ h =>
    rw [← List.reverse_reverse fragment, h]
    simp
  · exact List.prefix_rfl

theorem withoutLineEnd_line_isPrefix (body : Text) : withoutLineEnd (body ++ ['\n']) <+: body := by
  rcases List.eq_nil_or_concat' body with rfl | ⟨front, c, rfl⟩
  · exact List.prefix_rfl
  · by_cases hc : c = '\r'
    · simp [withoutLineEnd, hc]
    · simp [withoutLineEnd, hc]

/-- A line without a carriage return at its end is what its fragment has before the line feed. -/
theorem withoutLineEnd_line {line : Text} (h : '\r' ∉ line.getLast?) :
    withoutLineEnd (line ++ ['\n']) = line := by
  rcases List.eq_nil_or_concat' line with rfl | ⟨body, c, rfl⟩
  · rfl
  · have hc : c ≠ '\r' := by simpa using h
    simp [withoutLineEnd, hc]

/-- A fragment that starts with no line end keeps its first character. -/
theorem withoutLineEnd_cons {c : Char} (hfeed : c ≠ '\n') (hreturn : c ≠ '\r') (rest : Text) :
    ∃ kept, withoutLineEnd (c :: rest) = c :: kept := by
  cases hkept : withoutLineEnd (c :: rest) with
  | nil =>
    -- what is cut off is a line end, and `c` would be its first character
    have hcut : (c :: rest).reverse = ['\n', '\r'] ∨ (c :: rest).reverse = ['\n'] := by
      unfold withoutLineEnd at hkept
      split at hkept
      · next body h =>
        rw [List.reverse_eq_nil_iff] at hkept
        exact Or.inl (hkept ▸ h)
      · next body _ h =>
        rw [List.reverse_eq_nil_iff] at hkept
        exact Or.inr (hkept ▸ h)
      · cases hkept
    rcases hcut with hcut | hcut
    · have hline := List.reverse_eq_iff.mp hcut
      exact absurd (List.cons.inj hline).1 hreturn
    · have hline := List.reverse_eq_iff.mp hcut
      exact absurd (List.cons.inj hline).1 hfeed
  | cons d kept =>
    obtain ⟨more, hmore⟩ := withoutLineEnd_isPrefix (c :: rest)
    rw [hkept, List.cons_append] at hmore
    exact ⟨kept, by rw [(List.cons.inj hmore).1]⟩

theorem lines_append {a : Text} (h : Fragment.Closed a) (b : Text) :
    lines (a ++ b) = lines a ++ lines b := by
  rw [lines, Fragment.split_append h, List.map_append]
  rfl

/-- A line is the first one of a text that starts with it and ends there or goes on with a line
end. -/
theorem exists_lines_eq_cons {line : Text} (hne : line ≠ []) (hfeed : '\n' ∉ line)
    (hreturn : '\r' ∉ line.getLast?) {rest : Text}
    (hrest : rest = [] ∨ (∃ t, rest = '\n' :: t) ∨ ∃ t, rest = '\r' :: '\n' :: t) :
    ∃ more, lines (line ++ rest) = line :: more := by
  rcases hrest with rfl | ⟨t, rfl⟩ | ⟨t, rfl⟩
  · obtain ⟨body, c, rfl⟩ := (List.eq_nil_or_concat' line).resolve_left hne
    have hc : c ≠ '\n' := fun hc => hfeed (by simp [hc])
    have hwhole : withoutLineEnd (body ++ [c]) = body ++ [c] := by simp [withoutLineEnd, hc]
    rw [List.append_nil, lines, Fragment.split_of_not_mem hne hfeed, List.map_singleton, hwhole]
    exact ⟨[], rfl⟩
  · refine ⟨lines t, ?_⟩
    rw [List.append_cons, lines_append (Fragment.closed_line line), lines,
      Fragment.split_line hfeed, List.map_singleton, withoutLineEnd_line hreturn,
      List.singleton_append]
  · have hfeed' : '\n' ∉ line ++ ['\r'] := by simp [hfeed]
    have hwhole : withoutLineEnd (line ++ ['\r'] ++ ['\n']) = line := by simp [withoutLineEnd]
    refine ⟨lines t, ?_⟩
    rw [List.append_cons, List.append_cons, lines_append (Fragment.closed_line _), lines,
      Fragment.split_line hfeed', List.map_singleton, hwhole, List.singleton_append]

/-- No line has a line feed. -/
theorem not_mem_lines {line t : Text} (h : line ∈ lines t) : '\n' ∉ line := by
  obtain ⟨fragment, hfragment, rfl⟩ := List.mem_map.mp h
  rcases (Fragment.canonical_split t).of_mem hfragment with ⟨body, hbody, rfl⟩ | hfeed
  · exact fun hmem => hbody ((withoutLineEnd_line_isPrefix body).subset hmem)
  · exact fun hmem => hfeed ((withoutLineEnd_isPrefix fragment).subset hmem)

end Text

/-! ## Numerals -/

namespace Decimal

theorem write_ne_nil (n : Nat) : write n ≠ [] := Nat.toDigits_ne_nil

theorem isDigit_of_mem_write {n : Nat} {c : Char} (h : c ∈ write n) : isDigit c = true :=
  Nat.isDigit_of_mem_toDigits (by decide) (by decide) h

/-- **A numeral stands for one number.** -/
theorem write_injective {m n : Nat} (h : write m = write n) : m = n :=
  calc
    m = Nat.ofDigitChars 10 (write m) 0 := Nat.ofDigitChars_ten_toDigits.symm
    _ = Nat.ofDigitChars 10 (write n) 0 := by rw [h]
    _ = n := Nat.ofDigitChars_ten_toDigits

/-- A numeral is read as its number. -/
theorem read?_write (n : Nat) : read? (write n) = some n := by
  have hdigits : write n ≠ [] ∧ (write n).all isDigit = true :=
    ⟨write_ne_nil n, List.all_eq_true.mpr fun _ => isDigit_of_mem_write⟩
  rw [read?, if_pos hdigits]
  exact congrArg some Nat.ofDigitChars_ten_toDigits

/-- A numeral ends before the first character that is no digit. -/
theorem eq_of_write_append {m n : Nat} {c : Char} {a b : Text} (hc : isDigit c = false)
    (h : write m ++ c :: a = write n ++ c :: b) : m = n ∧ a = b := by
  have hdigits (n : Nat) (rest : Text) : (write n ++ c :: rest).takeWhile isDigit = write n := by
    rw [List.takeWhile_append_of_pos fun _ => isDigit_of_mem_write,
      List.takeWhile_cons_of_neg (by simp [hc]), List.append_nil]
  have hwrite : write m = write n := by rw [← hdigits m a, h, hdigits]
  rw [hwrite] at h
  exact ⟨write_injective hwrite, (List.cons.inj (List.append_cancel_left h)).2⟩

end Decimal
end NotebookTidy
