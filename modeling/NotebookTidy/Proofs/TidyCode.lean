import NotebookTidy.Proofs.ProperSegments
import NotebookTidy.Proofs.SpacedCode

/-!
# Tidy code

What the spacing formatter takes and what it makes of it, said without the formatter.  It takes code
of which no line offends (`Offends`), and what it makes of that is **tidy** (`IsTidy`): code without
empty lines at its ends, with one line feed behind the last line, and of which again no line
offends.  Tidy code is not always left as it is, since signs are spaced as well; but what the
formatter has made it makes again, so that it is a projection (`format_projects`).

Of code that it does not take it quotes the first line that offends, with the number of that line.
-/

namespace NotebookTidy
namespace Spacing

/-! ## Lines that offend -/

/-- **A line that cannot be parsed**: its first character that is not blank is the mark of a
directive, or there is an opening parenthesis with a colon behind it. -/
inductive Offends : Text → Prop
  | directive {blanks rest : Text} {mark : Char} (blank : ∀ c ∈ blanks, Text.isBlank c = true)
      (isMark : mark ∈ directiveMarks) : Offends (blanks ++ mark :: rest)
  | colon {line : Text} (within : ['(', ':'] <:+: line) : Offends line

/-- The first character that is not blank has nothing but blanks before it. -/
theorem head?_trimStart_eq_some_iff {line : Text} {c : Char} :
    (Text.trimStart line).head? = some c ↔ Text.isBlank c = false ∧
      ∃ blanks rest, line = blanks ++ c :: rest ∧ ∀ d ∈ blanks, Text.isBlank d = true := by
  constructor
  · intro hhead
    obtain ⟨rest, hrest⟩ := List.head?_eq_some_iff.mp hhead
    have hc := List.head?_dropWhile_not Text.isBlank line
    rw [show line.dropWhile Text.isBlank = c :: rest from hrest] at hc
    refine ⟨hc, line.takeWhile Text.isBlank, rest, ?_, fun d hd => List.mem_takeWhile_imp hd⟩
    rw [← hrest]
    exact List.takeWhile_append_dropWhile.symm
  · rintro ⟨hc, blanks, rest, rfl, hblanks⟩
    have hnone : Text.trimStart blanks = [] := List.dropWhile_eq_nil_iff.mpr hblanks
    rw [Text.head?_trimStart hc, hnone]
    rfl

/-- **The faulty lines are those that offend.** -/
theorem isFaulty_iff {line : Text} : isFaulty line = true ↔ Offends line := by
  rw [isFaulty_eq, Bool.or_eq_true, Text.contains_iff, Option.any_eq_true]
  constructor
  · rintro (⟨mark, hhead, hmark⟩ | hwithin)
    · obtain ⟨-, blanks, rest, rfl, hblanks⟩ := head?_trimStart_eq_some_iff.mp hhead
      exact .directive hblanks (List.contains_iff_mem.mp hmark)
    · exact .colon hwithin
  · rintro (⟨hblanks, hmark⟩ | ⟨hwithin⟩)
    · refine .inl ⟨_, head?_trimStart_eq_some_iff.mpr ⟨?_, _, _, rfl, hblanks⟩, ?_⟩
      · exact (not_blank_of_mem_directiveMarks _ hmark).1
      · exact List.contains_iff_mem.mpr hmark
    · exact .inr hwithin

theorem isFaulty_eq_false_iff {line : Text} : isFaulty line = false ↔ ¬ Offends line := by
  rw [← isFaulty_iff, Bool.not_eq_true]

/-- **The first line that offends**, among lines of which the first has a number. -/
theorem firstFault?_eq_some_iff {first number : Nat} {lines : List Text} {line : Text} :
    firstFault? first lines = some (number, line) ↔ ∃ before after,
      lines = before ++ line :: after ∧ (∀ sound ∈ before, ¬ Offends sound) ∧ Offends line ∧
        number = before.length + first := by
  induction lines generalizing first with
  | nil => simp [firstFault?]
  | cons head rest ih =>
    rw [firstFault?]
    by_cases hhead : isFaulty head = true
    · rw [if_pos hhead, Option.some.injEq, Prod.mk.injEq]
      constructor
      · rintro ⟨rfl, rfl⟩
        exact ⟨[], rest, rfl, List.forall_mem_nil _, isFaulty_iff.mp hhead, (Nat.zero_add _).symm⟩
      · rintro ⟨before, after, hlines, hsound, hline, rfl⟩
        cases before with
        | nil => exact ⟨(Nat.zero_add _).symm, (List.cons.inj hlines).1⟩
        | cons sound before =>
          -- the head would be one of the lines before
          obtain ⟨rfl, -⟩ := List.cons.inj hlines
          exact absurd (isFaulty_iff.mp hhead) (hsound head List.mem_cons_self)
    · rw [if_neg hhead, ih]
      rw [isFaulty_iff] at hhead
      constructor
      · rintro ⟨before, after, rfl, hsound, hline, rfl⟩
        refine ⟨head :: before, after, rfl, List.forall_mem_cons.mpr ⟨hhead, hsound⟩, hline, ?_⟩
        rw [List.length_cons]
        omega
      · rintro ⟨before, after, hlines, hsound, hline, rfl⟩
        cases before with
        | nil =>
          obtain ⟨rfl, -⟩ := List.cons.inj hlines
          exact absurd hline hhead
        | cons sound before =>
          obtain ⟨rfl, rfl⟩ := List.cons.inj hlines
          refine ⟨before, after, rfl, (List.forall_mem_cons.mp hsound).2, hline, ?_⟩
          rw [List.length_cons]
          omega

/-! ## What is made of code -/

/-- **Tidy code.** -/
structure IsTidy (code : Text) : Prop where
  /-- If it is not empty, one line feed ends it and no second one stands before. -/
  ending : code = [] ∨ ∃ body, code = body ++ ['\n'] ∧ body.getLast? ≠ some '\n'
  /-- Its first line is not empty. -/
  first : ∀ line ∈ (Text.lines code).head?, line ≠ []
  /-- Nor is its last line. -/
  last : ∀ line ∈ (Text.lines code).getLast?, line ≠ []
  /-- None of its lines offends. -/
  sound : ∀ line ∈ Text.lines code, ¬ Offends line

/-- Lines without the empty ones at both ends do not start with an empty one. -/
theorem ne_nil_of_head?_trimLines {lines : List Text} {line : Text}
    (h : line ∈ (trimLines lines).head?) : line ≠ [] := by
  obtain ⟨rest, hrest⟩ := List.head?_eq_some_iff.mp h
  obtain ⟨more, hmore⟩ := List.rdropWhile_prefix (· = []) (lines.dropWhile (· = []))
  have hfirst := List.head?_dropWhile_not (fun line : Text => decide (line = [])) lines
  rw [← trimLines_eq, hrest] at hmore
  rw [← hmore] at hfirst
  exact of_decide_eq_false hfirst

/-- They do not end with one either. -/
theorem ne_nil_of_getLast?_trimLines {lines : List Text} {line : Text}
    (h : line ∈ (trimLines lines).getLast?) : line ≠ [] := by
  obtain ⟨front, hfront⟩ := List.getLast?_eq_some_iff.mp h
  have hne : (lines.dropWhile (· = [])).rdropWhile (· = []) ≠ [] := by
    rw [← trimLines_eq, hfront]
    exact List.concat_ne_nil _ _
  have hlast := List.rdropWhile_last_not (· = []) _ hne
  simpa [← trimLines_eq, hfront] using hlast

/-- **What the formatter makes of code is tidy.** -/
theorem isTidy_tidied {code : Text} (h : refusal? code = none) : IsTidy (tidied code) := by
  have hsound : ∀ line ∈ Text.lines (tidied code), ¬ Offends line := by
    intro line hline
    exact isFaulty_eq_false_iff.mp (firstFault?_eq_none_iff.mp (refusal?_tidied h) line hline)
  refine ⟨?_, ?_, ?_, hsound⟩
  · rcases List.eq_nil_or_concat' (trimLines ((Text.lines code).map spaceLine)) with
      hnone | ⟨front, last, hlines⟩
    · exact .inl (by rw [tidied, hnone]; rfl)
    · refine .inr ⟨ofLines front ++ last, ?_, ?_⟩
      · rw [tidied, hlines]
        simp [ofLines]
      · have hlast : last ∈ (trimLines ((Text.lines code).map spaceLine)).getLast? := by
          rw [hlines, List.getLast?_concat]
          rfl
        have hne : last ≠ [] := ne_nil_of_getLast?_trimLines hlast
        have hmem : last ∈ Text.lines (tidied code) := by
          rw [lines_tidied]
          exact List.mem_of_getLast? hlast
        -- the body ends as its last line does, which has no line feed
        intro hfeed
        rw [List.getLast?_append_of_ne_nil _ hne] at hfeed
        exact Text.not_mem_lines hmem (List.mem_of_getLast? hfeed)
  · rw [lines_tidied]
    exact fun line => ne_nil_of_head?_trimLines
  · rw [lines_tidied]
    exact fun line => ne_nil_of_getLast?_trimLines

/-! ## The formatter -/

theorem format_of_crash {code : Text} (h : crashWord <:+: code) :
    format code = .error (.failed (some 1) "error: cannot format -: INTERNAL ERROR".toList) := by
  rw [format, if_pos (Text.contains_iff.mpr h)]

/-- **Code that is formatted** has no crash word and is not refused. -/
theorem format_eq_ok_iff {code out : Text} :
    format code = .ok out ↔ ¬ crashWord <:+: code ∧ refusal? code = none ∧ out = tidied code := by
  by_cases hcrash : crashWord <:+: code
  · rw [format_of_crash hcrash]
    simp [hcrash]
  · rw [format_eq hcrash]
    cases hrefusal : refusal? code with
    | none => simp [hcrash, eq_comm]
    | some fault => simp

/-- **Code that is rejected** has no crash word either, and is rejected with what it is refused
for. -/
theorem format_eq_cannotParse_iff {code message : Text} {quoted : Option Text} :
    format code = .error (.cannotParse message quoted) ↔ ¬ crashWord <:+: code ∧
      ∃ number line, refusal? code = some (number, line) ∧ quoted = some line ∧
        message = faultMessage number line := by
  by_cases hcrash : crashWord <:+: code
  · rw [format_of_crash hcrash]
    simp [hcrash]
  · rw [format_eq hcrash]
    cases hrefusal : refusal? code with
    | none => simp
    | some fault =>
      obtain ⟨number, line⟩ := fault
      simp only [Except.error.injEq, FormatterError.cannotParse.injEq, hcrash, not_false_eq_true,
        true_and, Option.some.injEq, Prod.mk.injEq]
      constructor
      · rintro ⟨rfl, rfl⟩
        exact ⟨number, line, ⟨rfl, rfl⟩, rfl, rfl⟩
      · rintro ⟨_, _, ⟨rfl, rfl⟩, rfl, rfl⟩
        exact ⟨rfl, rfl⟩

/-- **The spacing formatter is a projection, and what it makes is tidy.**  It formats exactly the
code that has no crash word and no line that offends; what it makes of it is tidy, and in every mode
it makes the same of that again.  It rejects exactly the code that has no crash word and has a line
that offends, and quotes the first of these lines with its number, the first line of the code being
number one. -/
theorem format_projects (history : List Call) (mode : Mode) (source : Text) :
    ((∃ out, (formatter history ⟨mode, source⟩).result = .ok out) ↔
      ¬ crashWord <:+: source ∧ ∀ line ∈ Text.lines source, ¬ Offends line) ∧
    (∀ out, (formatter history ⟨mode, source⟩).result = .ok out →
      IsTidy out ∧
        ∀ history' mode', (formatter history' ⟨mode', out⟩).result = .ok out) ∧
    ∀ message quoted,
      (formatter history ⟨mode, source⟩).result = .error (.cannotParse message quoted) ↔
        ¬ crashWord <:+: source ∧ ∃ before line after,
          Text.lines source = before ++ line :: after ∧ (∀ sound ∈ before, ¬ Offends sound) ∧
            Offends line ∧ quoted = some line ∧
            message = "Cannot parse: ".toList ++ Decimal.write (before.length + 1) ++
              ":0: ".toList ++ line := by
  have hresult (history : List Call) (mode : Mode) (code : Text) :
      (formatter history ⟨mode, code⟩).result = format code := rfl
  simp only [hresult]
  refine ⟨?_, ?_, ?_⟩
  · simp only [format_eq_ok_iff, refusal?, firstFault?_eq_none_iff, isFaulty_eq_false_iff]
    constructor
    · rintro ⟨out, hcrash, hsound, -⟩
      exact ⟨hcrash, hsound⟩
    · rintro ⟨hcrash, hsound⟩
      exact ⟨_, hcrash, hsound, rfl⟩
  · intro out hout
    obtain ⟨hcrash, hrefusal, rfl⟩ := format_eq_ok_iff.mp hout
    refine ⟨isTidy_tidied hrefusal, fun _ _ => format_eq_ok_iff.mpr ⟨?_, ?_, ?_⟩⟩
    · exact fun hwithin => hcrash (infix_tidied hwithin)
    · exact refusal?_tidied hrefusal
    · exact (tidied_tidied source).symm
  · intro message quoted
    rw [format_eq_cannotParse_iff]
    refine and_congr_right fun _ => ?_
    simp only [refusal?, firstFault?_eq_some_iff]
    constructor
    · rintro ⟨number, line, ⟨before, after, hlines, hsound, hline, rfl⟩, hquoted, hmessage⟩
      exact ⟨before, line, after, hlines, hsound, hline, hquoted, hmessage⟩
    · rintro ⟨before, line, after, hlines, hsound, hline, hquoted, hmessage⟩
      exact ⟨_, line, ⟨before, after, hlines, hsound, hline, rfl⟩, hquoted, hmessage⟩

/-- Code to be spaced, with empty lines at both ends and a sign in brackets that is left alone. -/
def looseCode : Text := "\n \nx=1 \r\ny  =  f(a=1)\n\n".toList

/-- Code with two lines that offend, the first of them being its second. -/
def offendingCode : Text := "x=1\n  f(:\n%cd\n".toList

theorem projects_loose_and_offending :
    (∃ out, (formatter [] ⟨.standard, looseCode⟩).result = .ok out ∧
      out = "x = 1\ny = f(a=1)\n".toList ∧ IsTidy out ∧
      ∀ history mode, (formatter history ⟨mode, out⟩).result = .ok out) ∧
    ∃ message line, (formatter [] ⟨.standard, offendingCode⟩).result =
        .error (.cannotParse message (some line)) ∧
      line = "  f(:".toList ∧ message = "Cannot parse: 2:0:   f(:".toList ∧
      ∃ before after, Text.lines offendingCode = before ++ line :: after ∧
        (∀ sound ∈ before, ¬ Offends sound) ∧ Offends line := by
  have hloose : (formatter [] ⟨.standard, looseCode⟩).result =
      .ok "x = 1\ny = f(a=1)\n".toList := rfl
  have hoffending : (formatter [] ⟨.standard, offendingCode⟩).result = .error
      (.cannotParse "Cannot parse: 2:0:   f(:".toList (some "  f(:".toList)) := rfl
  refine ⟨⟨_, hloose, rfl, (format_projects [] .standard looseCode).2.1 _ hloose⟩, ?_⟩
  obtain ⟨-, before, line, after, hlines, hsound, hline, hquoted, -⟩ :=
    ((format_projects [] .standard offendingCode).2.2 _ _).mp hoffending
  cases hquoted
  exact ⟨_, _, hoffending, rfl, rfl, before, after, hlines, hsound, hline⟩

end Spacing
end NotebookTidy
