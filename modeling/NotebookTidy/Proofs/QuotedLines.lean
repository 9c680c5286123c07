import NotebookTidy.Formatter.Black
import NotebookTidy.Proofs.LossyDecoding
import NotebookTidy.Proofs.TextPieces

/-!
# The line that a complaint quotes

A complaint about code that cannot be parsed has a line with an **announcement**
(`Black.announcement`): where the fault is, and behind that the offending line.  The search for it
is said here without searching (`Black.Announces`): the line is some text and then an announcement.

The announcement that a line has first is the one that counts, and the words before it in a line of
complaint have no announcement in them.  So the offending line is found as it was quoted, whatever
it is like: it may have blanks at its start, numbers and colons, or an announcement of its own
(`Black.complaint_decoded`).
-/

namespace NotebookTidy

namespace Black

/-! ## Announcements -/

/-- The text is a run of decimal digits, at least one. -/
def IsNumber (t : Text) : Prop := t ≠ [] ∧ ∀ c ∈ t, Text.isDecimalDigit c = true

/-- The name of a target version has a character at least, and no colon. -/
def IsVersion (version : Text) : Prop := version ≠ [] ∧ ':' ∉ version

/-- The words about a target version, if there is one. -/
def versionWords : Option Text → Text
  | none => []
  | some version => " for target version ".toList ++ version

theorem versionWords_some (version : Text) :
    versionWords (some version) = " for target version ".toList ++ version := rfl

/-- **The announcement of a fault** at a row and a column, perhaps for a target version, with what
follows it. -/
def announcement (version : Option Text) (row column rest : Text) : Text :=
  "Cannot parse".toList ++
    (versionWords version ++ ':' :: ' ' :: (row ++ ':' :: (column ++ ':' :: rest)))

theorem announcement_eq (version : Option Text) (row column rest : Text) :
    announcement version row column rest = "Cannot parse".toList ++
      (versionWords version ++ ':' :: ' ' :: (row ++ ':' :: (column ++ ':' :: rest))) := rfl

/-- Announcements start with a capital C. -/
theorem exists_announcement_eq_cons (version : Option Text) (row column rest : Text) :
    ∃ t, announcement version row column rest = 'C' :: t := by
  have hwords : "Cannot parse".toList = 'C' :: "annot parse".toList := by decide
  rw [announcement_eq, hwords, List.cons_append]
  exact ⟨_, rfl⟩

/-- **An announcement stands in the line.** -/
def Announces (line : Text) : Prop :=
  ∃ front version row column rest, (∀ v ∈ version, IsVersion v) ∧ IsNumber row ∧
    IsNumber column ∧ line = front ++ announcement version row column rest

/-- What follows an announcement, less the blank that it may start with. -/
def withoutBlank : Text → Text
  | ' ' :: line => line
  | line => line

/-! ## The search at one place -/

theorem afterNumber?_eq_some_iff {t rest : Text} :
    afterNumber? t = some rest ↔ ∃ n, IsNumber n ∧ t = n ++ ':' :: rest := by
  rw [afterNumber?, Option.ite_none_left_eq_some, Text.after?_eq_some_iff]
  constructor
  · rintro ⟨hne, hrest⟩
    refine ⟨t.takeWhile Text.isDecimalDigit, ⟨hne, ?_⟩, ?_⟩
    · exact List.all_eq_true.mp List.all_takeWhile
    · rw [← List.singleton_append, ← hrest, List.takeWhile_append_dropWhile]
  · rintro ⟨n, ⟨hne, hdigits⟩, rfl⟩
    have hcolon : Text.isDecimalDigit ':' = false := by decide
    rw [List.takeWhile_append_of_pos hdigits, List.dropWhile_append_of_pos hdigits,
      List.takeWhile_cons_of_neg (by simp [hcolon]), List.dropWhile_cons_of_neg (by simp [hcolon]),
      List.append_nil]
    exact ⟨hne, rfl⟩

/-- The words about a target version end at the first colon. -/
theorem afterVersion_eq {version : Option Text} (h : ∀ v ∈ version, IsVersion v) (rest : Text) :
    afterVersion (versionWords version ++ ':' :: rest) = ':' :: rest := by
  cases version with
  | none => rfl
  | some v =>
    obtain ⟨hne, hcolon⟩ := h v rfl
    have hv : ∀ c ∈ v, decide (c ≠ ':') = true := by
      intro c hc
      exact decide_eq_true (ne_of_mem_of_not_mem hc hcolon)
    have hafter : Text.after? " for target version ".toList
        (versionWords (some v) ++ ':' :: rest) = some (v ++ ':' :: rest) := by
      rw [Text.after?_eq_some_iff, versionWords_some, List.append_assoc]
    rw [afterVersion, hafter]
    dsimp only
    rw [List.takeWhile_append_of_pos hv, List.dropWhile_append_of_pos hv,
      List.takeWhile_cons_of_neg (by simp), List.dropWhile_cons_of_neg (by simp), List.append_nil,
      if_neg hne]

/-- What is skipped before a colon is nothing, or words about a target version. -/
theorem exists_version {t rest : Text} (h : afterVersion t = ':' :: rest) :
    ∃ version, (∀ v ∈ version, IsVersion v) ∧ t = versionWords version ++ ':' :: rest := by
  unfold afterVersion at h
  split at h
  · exact ⟨none, by rintro _ ⟨⟩, h⟩
  · next words hwords =>
    split at h
    · exact ⟨none, by rintro _ ⟨⟩, h⟩
    · next hne =>
      refine ⟨some (words.takeWhile (· ≠ ':')), ?_, ?_⟩
      · rintro v ⟨⟩
        refine ⟨hne, fun hcolon => ?_⟩
        simpa using List.mem_takeWhile_imp hcolon
      · rw [versionWords_some, List.append_assoc, ← h, List.takeWhile_append_dropWhile]
        exact Text.after?_eq_some_iff.mp hwords

/-- An announcement at the start is found. -/
theorem quotedAtStart?_announcement {version : Option Text} {row column : Text}
    (hversion : ∀ v ∈ version, IsVersion v) (hrow : IsNumber row) (hcolumn : IsNumber column)
    (rest : Text) :
    quotedAtStart? (announcement version row column rest) = some (withoutBlank rest) := by
  have hstart := Text.after?_eq_some_iff.mpr (rfl : announcement version row column rest = _)
  have hplace (t : Text) :
      Text.after? ": ".toList (afterVersion (versionWords version ++ ':' :: ' ' :: t)) = some t := by
    rw [afterVersion_eq hversion]
    exact Text.after?_eq_some_iff.mpr rfl
  have hnumber {n : Text} (hn : IsNumber n) (t : Text) : afterNumber? (n ++ ':' :: t) = some t :=
    afterNumber?_eq_some_iff.mpr ⟨n, hn, rfl⟩
  unfold quotedAtStart?
  simp only [Option.bind_eq_bind, hstart, hplace, hnumber hrow, hnumber hcolumn, Option.bind_some]
  split
  · rfl
  · next hblank => rw [withoutBlank.eq_2 _ hblank]

/-- What is found at the start is an announcement. -/
theorem exists_announcement {t q : Text} (h : quotedAtStart? t = some q) :
    ∃ version row column rest, (∀ v ∈ version, IsVersion v) ∧ IsNumber row ∧ IsNumber column ∧
      t = announcement version row column rest := by
  unfold quotedAtStart? at h
  simp only [Option.bind_eq_bind, Option.bind_eq_some_iff] at h
  obtain ⟨a, ha, b, hb, c, hc, d, hd, -⟩ := h
  obtain ⟨version, hversion, rfl⟩ := exists_version (Text.after?_eq_some_iff.mp hb)
  obtain ⟨row, hrow, rfl⟩ := afterNumber?_eq_some_iff.mp hc
  obtain ⟨column, hcolumn, rfl⟩ := afterNumber?_eq_some_iff.mp hd
  exact ⟨version, row, column, d, hversion, hrow, hcolumn, Text.after?_eq_some_iff.mp ha⟩

/-! ## The search in a line -/

theorem quotedAtStart?_cons {c : Char} (h : c ≠ 'C') (rest : Text) :
    quotedAtStart? (c :: rest) = none := by
  rw [Option.eq_none_iff_forall_ne_some]
  intro q hq
  obtain ⟨version, row, column, after, -, -, -, hannounced⟩ := exists_announcement hq
  obtain ⟨t, ht⟩ := exists_announcement_eq_cons version row column after
  exact h (List.cons.inj (hannounced.trans ht)).1

/-- **Lines in which nothing is found** are those without an announcement. -/
theorem quotedLine?_eq_none_iff {line : Text} : quotedLine? line = none ↔ ¬ Announces line := by
  induction line with
  | nil =>
    refine iff_of_true rfl ?_
    rintro ⟨front, version, row, column, rest, -, -, -, hline⟩
    obtain ⟨t, ht⟩ := exists_announcement_eq_cons version row column rest
    rw [ht] at hline
    exact absurd hline (by simp)
  | cons c rest ih =>
    have hcons : quotedLine? (c :: rest) = none ↔
        quotedAtStart? (c :: rest) = none ∧ quotedLine? rest = none := by
      rw [quotedLine?]
      cases quotedAtStart? (c :: rest) <;> simp
    rw [hcons, ih]
    constructor
    · rintro ⟨hstart, hrest⟩ ⟨front, version, row, column, after, hversion, hrow, hcolumn, hline⟩
      cases front with
      | nil =>
        rw [List.nil_append] at hline
        rw [hline, quotedAtStart?_announcement hversion hrow hcolumn] at hstart
        cases hstart
      | cons d front =>
        exact hrest ⟨front, version, row, column, after, hversion, hrow, hcolumn,
          (List.cons.inj hline).2⟩
    · intro h
      constructor
      · rw [Option.eq_none_iff_forall_ne_some]
        intro q hq
        obtain ⟨version, row, column, after, hplace⟩ := exists_announcement hq
        exact h ⟨[], version, row, column, after, hplace⟩
      · rintro ⟨front, version, row, column, after, hversion, hrow, hcolumn, rfl⟩
        exact h ⟨c :: front, version, row, column, after, hversion, hrow, hcolumn, rfl⟩

/-- Words without a capital C have no announcement that starts in them. -/
theorem quotedLine?_append {front : Text} (h : 'C' ∉ front) (t : Text) :
    quotedLine? (front ++ t) = quotedLine? t := by
  induction front with
  | nil => rfl
  | cons c front ih =>
    rw [List.mem_cons, not_or] at h
    rw [List.cons_append, quotedLine?, quotedAtStart?_cons (Ne.symm h.1)]
    exact ih h.2

/-! ## Lines of complaint -/

/-- The words that a line of complaint about the input starts with. -/
def leadIn : Text := "error: cannot format -: ".toList

/-- **What a line of complaint quotes is found**, whatever it is like. -/
theorem quotedLine?_complaint {version : Option Text} {row column : Text}
    (hversion : ∀ v ∈ version, IsVersion v) (hrow : IsNumber row) (hcolumn : IsNumber column)
    (q : Text) : quotedLine? (leadIn ++ announcement version row column (' ' :: q)) = some q := by
  have hfound := quotedAtStart?_announcement hversion hrow hcolumn (' ' :: q)
  obtain ⟨t, ht⟩ := exists_announcement_eq_cons version row column (' ' :: q)
  rw [quotedLine?_append (by decide), ht, quotedLine?, ← ht, hfound]
  rfl

/-- The message is the announcement without the blanks at its end. -/
theorem withoutLeadIn_trim (version : Option Text) (row column rest : Text) :
    withoutLeadIn (Text.trim (leadIn ++ announcement version row column rest)) =
      Text.trimEnd (announcement version row column rest) := by
  obtain ⟨t, ht⟩ := exists_announcement_eq_cons version row column rest
  have hlead : leadIn = "error: cannot format ".toList ++ ['-', ':', ' '] := by decide
  have htrim : Text.trim (leadIn ++ 'C' :: t) = leadIn ++ 'C' :: Text.trimEnd t := by
    have hstart : leadIn = 'e' :: leadIn.tail := by decide
    rw [Text.trim, Text.trimEnd_append_cons (by decide), hstart, List.cons_append, Text.trimStart_cons,
      if_neg (by decide)]
  have hfirst : Text.after? "error: cannot format ".toList (leadIn ++ 'C' :: Text.trimEnd t) =
      some ('-' :: ':' :: ' ' :: 'C' :: Text.trimEnd t) := by
    rw [Text.after?_eq_some_iff, hlead, List.append_assoc]
    rfl
  have hsecond : Text.after? ": ".toList (':' :: ' ' :: 'C' :: Text.trimEnd t) =
      some ('C' :: Text.trimEnd t) :=
    Text.after?_eq_some_iff.mpr rfl
  have hcut : ('-' :: ':' :: ' ' :: 'C' :: Text.trimEnd t).dropWhile (· ≠ ':') =
      ':' :: ' ' :: 'C' :: Text.trimEnd t := rfl
  rw [ht, htrim, withoutLeadIn, hfirst]
  dsimp only
  rw [hcut, hsecond, Option.getD_some]
  exact (Text.trimEnd_append_cons (by decide) [] t).symm

theorem parseFailure?_append {lines : List Text} (h : ∀ line ∈ lines, ¬ Announces line)
    (more : List Text) : parseFailure? (lines ++ more) = parseFailure? more := by
  induction lines with
  | nil => rfl
  | cons line lines ih =>
    obtain ⟨hline, hlines⟩ := List.forall_mem_cons.mp h
    rw [List.cons_append, parseFailure?, quotedLine?_eq_none_iff.mpr hline]
    exact ih hlines

/-! ## Complaints -/

theorem feed_not_mem_announcement {version : Option Text} {row column rest : Text}
    (hversion : ∀ v ∈ version, '\n' ∉ v) (hrow : IsNumber row) (hcolumn : IsNumber column)
    (hrest : '\n' ∉ rest) : '\n' ∉ announcement version row column rest := by
  have hwords : '\n' ∉ versionWords version := by
    cases version with
    | none => exact List.not_mem_nil
    | some v =>
      rw [versionWords_some, List.mem_append, not_or]
      exact ⟨by decide, hversion v rfl⟩
  have hnumber {n : Text} (hn : IsNumber n) : '\n' ∉ n := fun hmem =>
    absurd (hn.2 _ hmem) (by decide)
  have hstart : '\n' ∉ "Cannot parse".toList := by decide
  rw [announcement_eq]
  simp only [List.mem_append, List.mem_cons, not_or]
  exact ⟨hstart, hwords, by decide, by decide, hnumber hrow, by decide, hnumber hcolumn, by decide,
    hrest⟩

/-- **A line with an announcement is a line of the complaint**, behind the lines before it. -/
theorem exists_lines_complaint {before after : Octets} (hbefore : Utf8.EndsLine before)
    (hafter : Utf8.FollowsLine after) {version : Option Text} {row column q : Text}
    (hversion : ∀ v ∈ version, '\n' ∉ v) (hrow : IsNumber row) (hcolumn : IsNumber column)
    (hfeed : '\n' ∉ q) (hreturn : '\r' ∉ q.getLast?) :
    ∃ more, Text.lines (Utf8.decodeLossy
        (before ++ (Utf8.encode (leadIn ++ announcement version row column (' ' :: q)) ++ after))) =
      Text.lines (Utf8.decodeLossy before) ++
        (leadIn ++ announcement version row column (' ' :: q)) :: more := by
  have hline : '\n' ∉ leadIn ++ announcement version row column (' ' :: q) := by
    rw [List.mem_append, not_or]
    exact ⟨by decide, feed_not_mem_announcement hversion hrow hcolumn (by simp [hfeed])⟩
  have hlast : '\r' ∉ (leadIn ++ announcement version row column (' ' :: q)).getLast? := by
    have hfront : ∃ front, announcement version row column (' ' :: q) = front ++ ' ' :: q := by
      refine ⟨announcement version row column [], ?_⟩
      simp only [announcement_eq, List.append_assoc, List.cons_append, List.nil_append]
    obtain ⟨front, hfront⟩ := hfront
    rw [hfront, ← List.append_assoc, List.getLast?_append]
    cases q with
    | nil => simp
    | cons c q => simpa using hreturn
  obtain ⟨t, ht⟩ := exists_announcement_eq_cons version row column (' ' :: q)
  obtain ⟨more, hmore⟩ := Text.exists_lines_eq_cons (by simp [ht]) hline hlast hafter.decoded
  obtain ⟨happend, hclosed⟩ := Utf8.decodeLossy_append hbefore
    (Utf8.encode (leadIn ++ announcement version row column (' ' :: q)) ++ after)
  exact ⟨more, by
    rw [happend, Utf8.decodeLossy_encode_append, Text.lines_append hclosed, hmore]⟩

/-- **Complaints are decoded exactly.**  Black exits with the code for input that it cannot format.
If a line of its complaint has an announcement behind the words for the input, and no line before it
has one, the code could not be parsed: the offending line is the text that is quoted, and the
message is the announcement without the blanks at its end.  If no line has an announcement, the
formatter failed, and the whole complaint says why. -/
theorem complaint_decoded {program : Program} {history : List Call} {call : Call}
    {output complaint : Octets} (name : Text)
    (hresult : (program (history.map launch) (launch call)).result =
      ⟨.exited cannotFormat, output, complaint⟩) :
    (∀ before after version row column q,
      complaint = before ++
        (Utf8.encode (leadIn ++ announcement version row column (' ' :: q)) ++ after) →
      Utf8.EndsLine before → Utf8.FollowsLine after →
      (∀ line ∈ Text.lines (Utf8.decodeLossy before), ¬ Announces line) →
      (∀ v ∈ version, IsVersion v ∧ '\n' ∉ v) → IsNumber row → IsNumber column →
      '\n' ∉ q → '\r' ∉ q.getLast? →
      (formatter name (.ok program) history call).result = .error (.cannotParse
        (Text.trimEnd (announcement version row column (' ' :: q))) (some q))) ∧
    ((∀ line ∈ Text.lines (Utf8.decodeLossy complaint), ¬ Announces line) →
      (formatter name (.ok program) history call).result =
        .error (.failed (some cannotFormat) (Text.trim (Utf8.decodeLossy complaint)))) := by
  have hinterpret : (formatter name (.ok program) history call).result =
      .error ((parseFailure? (Text.lines (Utf8.decodeLossy complaint))).getD
        (.failed (some cannotFormat) (Text.trim (Utf8.decodeLossy complaint)))) := by
    change interpret (program (history.map launch) (launch call)).result = _
    rw [hresult]
    rfl
  rw [hinterpret]
  constructor
  · rintro before after version row column q rfl hbefore hafter hearlier hversion hrow hcolumn
      hfeed hreturn
    obtain ⟨more, hlines⟩ := exists_lines_complaint hbefore hafter (fun v hv => (hversion v hv).2)
      hrow hcolumn hfeed hreturn
    have hquoted := quotedLine?_complaint (fun v hv => (hversion v hv).1) hrow hcolumn q
    rw [hlines, parseFailure?_append hearlier, parseFailure?, hquoted, withoutLeadIn_trim]
    rfl
  · intro hnone
    rw [← List.append_nil (Text.lines _), parseFailure?_append hnone]
    rfl

/-- The numeral of a number is a number. -/
theorem isNumber_write (n : Nat) : IsNumber (Decimal.write n) := by
  refine ⟨Decimal.write_ne_nil n, fun c hc => List.any_eq_true.mpr ⟨0x30, by decide, ?_⟩⟩
  have hdigit := Decimal.isDigit_of_mem_write hc
  simp only [Decimal.isDigit, Bool.and_eq_true, decide_eq_true_eq, Char.le_def,
    UInt32.le_iff_toNat_le] at hdigit ⊢
  change 0x30 ≤ c.toNat ∧ c.toNat < 0x30 + 10
  change 0x30 ≤ c.toNat ∧ c.toNat ≤ 0x39 at hdigit
  omega

/-- A line that looks like the announcement of another fault. -/
def misleading : Text := "    !Cannot parse: 1:0: %ls".toList

/-- What Black says of that line, behind a remark that is no text. -/
def misleadingComplaint : Octets :=
  [0xFF, 0x0A] ++ (Utf8.encode (leadIn ++ announcement (some "Python 3.12".toList)
    (Decimal.write 2) (Decimal.write 4) (' ' :: misleading)) ++ [0x0A])

/-- The misleading line is quoted, with the blanks at its start. -/
theorem decoded_of_misleading :
    (formatter "black".toList
      (.ok fun _ _ => ⟨⟨.exited cannotFormat, [], misleadingComplaint⟩, 0⟩) [] ⟨.standard, []⟩).result =
      .error (.cannotParse (Text.trimEnd (announcement (some "Python 3.12".toList)
        (Decimal.write 2) (Decimal.write 4) (' ' :: misleading))) (some misleading)) := by
  have hdecoded := @complaint_decoded
    (fun _ _ => ⟨⟨.exited cannotFormat, [], misleadingComplaint⟩, 0⟩) [] ⟨.standard, []⟩ _ _
    "black".toList rfl
  refine hdecoded.1 [0xFF, 0x0A] [0x0A] _ _ _ misleading rfl (by rintro b ⟨⟩; rfl) (.feed []) ?_ ?_
    (isNumber_write 2) (isNumber_write 4) (by decide) (by decide)
  · have hlines : Text.lines (Utf8.decodeLossy [0xFF, 0x0A]) = [['\uFFFD']] := by decide
    rw [hlines, List.forall_mem_singleton, ← quotedLine?_eq_none_iff]
    decide
  · rintro version ⟨⟩
    exact ⟨⟨by decide, by decide⟩, by decide⟩

end Black
end NotebookTidy
