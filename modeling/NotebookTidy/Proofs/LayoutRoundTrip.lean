import NotebookTidy.Proofs.TextPieces
import NotebookTidy.Proofs.WrittenText

/-!
# Documents show the layout that they are written in

Of a document that holds an object with members the layout is told again, up to what the document
has no trace of: how lines end if there are none, and whether strings beyond ASCII would be escaped
if there are none (`shows_detect_write`).  So the layout that it shows writes the same document
(`Shows.write_eq`).
-/

namespace NotebookTidy
namespace Layout

/-! ## The first separator -/

theorem afterSeparator?_inside {t : Text} (h : ∀ c ∈ t, c ≠ '\\' ∧ c ≠ '"') (rest : Text) :
    afterSeparator? .inside (t ++ rest) = afterSeparator? .inside rest := by
  induction t with
  | nil => rfl
  | cons c t ih =>
    obtain ⟨⟨hslash, hquote⟩, ht⟩ := List.forall_mem_cons.mp h
    rw [List.cons_append, afterSeparator?, if_neg hslash, if_neg hquote, ih ht]

theorem afterSeparator?_unitEscape (n : Nat) (rest : Text) :
    afterSeparator? .inside (Literal.unitEscape n ++ rest) = afterSeparator? .inside rest := by
  have hfour : ∀ c ∈ Hexadecimal.four n, c ≠ '\\' ∧ c ≠ '"' := by
    intro c hc
    have hother := (Hexadecimal.mem_four hc).2
    simp only [List.mem_cons, not_or] at hother
    exact ⟨hother.2.2.2.1, hother.2.2.1⟩
  exact afterSeparator?_inside hfour rest

/-- An escape does not end a string. -/
theorem afterSeparator?_escape (ascii : Bool) (c : Char) (rest : Text) :
    afterSeparator? .inside (Literal.escape ascii c ++ rest) = afterSeparator? .inside rest := by
  have hescaped := Literal.escaped_escape ascii c
  generalize Literal.escape ascii c = t at hescaped
  cases hescaped with
  | letter x hx => rfl
  | units us =>
    induction us with
    | nil => rfl
    | cons u us ih => rw [List.flatMap_cons, List.append_assoc, afterSeparator?_unitEscape, ih]
  | itself hquote hslash hline hkeeps =>
    refine afterSeparator?_inside (fun d hd => ?_) rest
    rw [List.mem_singleton.mp hd]
    exact ⟨hslash, hquote⟩

/-- **A literal holds no separator.** -/
theorem afterSeparator?_literal (ascii : Bool) (t rest : Text) :
    afterSeparator? .outside (Literal.write ascii t ++ rest) = afterSeparator? .outside rest := by
  have hinside : afterSeparator? .inside (t.flatMap (Literal.escape ascii) ++ '"' :: rest) =
      afterSeparator? .outside rest := by
    induction t with
    | nil => rfl
    | cons c t ih => rw [List.flatMap_cons, List.append_assoc, afterSeparator?_escape, ih]
  rw [Literal.write, List.append_assoc]
  exact hinside

/-! ## The first line -/

/-- There is no indent after the first line exactly if there is one line. -/
theorem indentAfterFirstLine?_eq_none_iff {t : Text} :
    indentAfterFirstLine? t = none ↔ '\n' ∉ t := by
  induction t with
  | nil => simp [indentAfterFirstLine?]
  | cons c t ih =>
    rw [indentAfterFirstLine?, List.mem_cons, not_or]
    by_cases hc : c = '\n'
    · simp [hc]
    · rw [if_neg hc, ih]
      exact ⟨fun ht => ⟨Ne.symm hc, ht⟩, And.right⟩

theorem indentAfterFirstLine?_append {a : Text} (h : '\n' ∉ a) {indent : Text}
    (hindent : ∀ c ∈ indent, c = ' ' ∨ c = '\t') {c : Char} (hc : c ≠ ' ' ∧ c ≠ '\t')
    (rest : Text) :
    indentAfterFirstLine? (a ++ '\n' :: (indent ++ c :: rest)) = some indent := by
  induction a with
  | nil =>
    have hall : ∀ d ∈ indent, (decide (d = ' ') || decide (d = '\t')) = true := fun d hd => by
      simpa using hindent d hd
    have hend : (c :: rest).takeWhile (fun d => d = ' ' || d = '\t') = [] :=
      List.takeWhile_cons_of_neg (by simp [hc.1, hc.2])
    rw [List.nil_append, indentAfterFirstLine?, if_pos rfl, List.takeWhile_append_of_pos hall, hend,
      List.append_nil]
  | cons d a ih =>
    rw [List.mem_cons, not_or] at h
    rw [List.cons_append, indentAfterFirstLine?, if_neg (Ne.symm h.1), ih h.2]

/-! ## The text of an object -/

/-- A written value does not start with a space. -/
theorem head_writeValue (l : Layout) {v : Json} (hv : v.WellFormed) (pen : Pen) :
    ∃ c rest, (l.writeValue v pen).1 = c :: rest ∧ c ≠ ' ' := by
  cases v with
  | null => exact ⟨'n', _, rfl, by decide⟩
  | boolean b =>
    cases b
    · exact ⟨'f', _, rfl, by decide⟩
    · exact ⟨'t', _, rfl, by decide⟩
  | number n =>
    rcases hn : n.write with - | ⟨c, rest⟩
    · exact absurd hn (Token.write_ne_nil hv)
    · refine ⟨c, rest, hn, ?_⟩
      rintro rfl
      have hbare := Token.isBare_of_mem_write hv (hn ▸ List.mem_cons_self)
      cases hbare.1
  | string t => exact ⟨'"', _, rfl, by decide⟩
  | array items => exact ⟨'[', _, rfl, by decide⟩
  | object members => exact ⟨'{', _, rfl, by decide⟩

/-- **How the text of an object starts**: a bracket, a break, and the first key with its
separator. -/
theorem start_writeObject (l : Layout) {key : Text} {v : Json} {rest : List (Text × Json)}
    (hv : (Json.object ((key, v) :: rest)).WellFormed) :
    ∃ after, (l.writeValue (.object ((key, v) :: rest)) ⟨0, false⟩).1 =
        '{' :: ((l.separate true ⟨1, false⟩).1 ++
          (Literal.write l.asciiOnly key ++ (l.keySeparator ++ after))) ∧
      after.head? ≠ some ' ' := by
  obtain ⟨c, front, hfront, hc⟩ := l.head_writeValue hv.2.2.1 (l.separate true ⟨1, false⟩).2
  have htext (p q : Pen) (hp : p = (endValue (l.writeValue v (l.separate true ⟨1, false⟩).2).2).2)
      (hq : q = (l.writeMembers false rest p).2) :
      (l.writeValue (.object ((key, v) :: rest)) ⟨0, false⟩).1 =
        ['{'] ++ (((l.separate true ⟨1, false⟩).1 ++
          ((Literal.write l.asciiOnly key ++ l.keySeparator) ++
            ((l.writeValue v (l.separate true ⟨1, false⟩).2).1 ++ []))) ++
          (l.writeMembers false rest p).1) ++ (l.closeBracket '}' q).1 := by
    subst hp hq
    rfl
  rw [htext _ _ rfl rfl, hfront]
  simp only [List.append_assoc, List.cons_append, List.nil_append]
  exact ⟨_, rfl, fun h => hc (Option.some.inj h)⟩

/-- The text of an object ends with a bracket. -/
theorem end_writeObject (l : Layout) (members : List (Text × Json)) (pen : Pen) :
    ∃ front, (l.writeValue (.object members) pen).1 = front ++ ['}'] := by
  rw [writeValue, followedBy_fst]
  unfold closeBracket
  cases l.indent with
  | none => exact ⟨_, rfl⟩
  | some indent => exact ⟨_, (List.append_assoc _ _ _).symm⟩

/-! ## Which characters there are -/

/-- Line ends are written only between lines. -/
theorem admits_lineEnds {l : Layout} (hl : l.WellFormed) :
    l.Admits fun c => c = '\n' ∨ c = '\r' → l.indent ≠ none ∧ c ∈ l.lineEnding.text where
  marks c hc hend := by
    rcases hend with rfl | rfl
    · exact absurd hc (by decide)
    · exact absurd hc (by decide)
  digits c hc hend := by
    rcases hend with rfl | rfl
    · cases hc
    · cases hc
  literals t c hc hend := by
    obtain ⟨⟨hfeed, hreturn⟩, -⟩ := Literal.mem_write hc
    exact absurd hend (not_or.mpr ⟨hfeed, hreturn⟩)
  lines indent hindent pen c hc hend := by
    refine ⟨by rw [Option.mem_def.mp hindent]; exact Option.some_ne_none _, ?_⟩
    rcases List.mem_append.mp hc with hc | hc
    · exact hc
    · obtain ⟨piece, hpiece, hc⟩ := List.mem_flatten.mp hc
      rw [(List.mem_replicate.mp hpiece).2] at hc
      rcases hl.1 indent hindent c hc with rfl | rfl
      · rcases hend with h | h <;> cases h
      · rcases hend with h | h <;> cases h

/-- A layout that keeps to ASCII does. -/
theorem admits_ascii {l : Layout} (hl : l.WellFormed) (hascii : l.asciiOnly = true) :
    l.Admits fun c => c.toNat < 0x80 where
  marks := List.forall_iff_forall_mem.mp (by decide)
  digits c hc := by
    simp only [Decimal.isDigit, Bool.and_eq_true, decide_eq_true_eq] at hc
    have hle : c.toNat ≤ '9'.toNat := hc.2
    exact Nat.lt_of_le_of_lt hle (by decide)
  literals t c hc := (Literal.mem_write hc).2 hascii
  lines indent hindent pen c hc := by
    have hend : ∀ c ∈ l.lineEnding.text, c.toNat < 0x80 :=
      List.forall_iff_forall_mem.mp (by cases l.lineEnding <;> decide)
    rcases List.mem_append.mp hc with hc | hc
    · exact hend c hc
    · obtain ⟨piece, hpiece, hc⟩ := List.mem_flatten.mp hc
      rw [(List.mem_replicate.mp hpiece).2] at hc
      rcases hl.1 indent hindent c hc with rfl | rfl
      · decide
      · decide

/-! ## The layout that is told -/

/-- What stands at the end of a document. -/
def ending (l : Layout) : Text := if l.finalLineEnd then l.lineEnding.text else []

theorem mem_ending {l : Layout} {c : Char} (h : c ∈ l.ending) : c = '\n' ∨ c = '\r' := by
  unfold ending at h
  split at h
  · cases hend : l.lineEnding with
    | lf =>
      rw [hend] at h
      exact Or.inl (List.mem_singleton.mp h)
    | crlf =>
      rw [hend] at h
      rcases List.mem_cons.mp h with rfl | h
      · exact Or.inr rfl
      · exact Or.inl (List.mem_singleton.mp h)
  · cases h

variable {l : Layout} {key : Text} {v : Json} {rest : List (Text × Json)}

/-- **The indent is told again.** -/
theorem indentAfterFirstLine?_write (hl : l.WellFormed)
    (hv : (Json.object ((key, v) :: rest)).WellFormed) :
    indentAfterFirstLine? (l.writeValue (.object ((key, v) :: rest)) ⟨0, false⟩).1 = l.indent := by
  cases hindent : l.indent with
  | none =>
    refine indentAfterFirstLine?_eq_none_iff.mpr fun hmem => ?_
    have hline := (admits_lineEnds hl).writeValue _ hv ⟨0, false⟩ '\n' hmem (Or.inl rfl)
    exact hline.1 hindent
  | some indent =>
    obtain ⟨after, htext, -⟩ := l.start_writeObject hv
    have hbreak : (l.separate true ⟨1, false⟩).1 = l.lineEnding.text ++ indent := by
      simp [separate, hindent, newLine]
    obtain ⟨literal, hliteral⟩ : ∃ literal, Literal.write l.asciiOnly key = '"' :: literal :=
      ⟨_, rfl⟩
    -- the first line is the bracket, with the carriage return that may belong to its end
    obtain ⟨before, hbefore, hfeed⟩ : ∃ before, l.lineEnding.text = before ++ ['\n'] ∧
        '\n' ∉ '{' :: before := by
      cases l.lineEnding
      · exact ⟨[], rfl, by decide⟩
      · exact ⟨['\r'], rfl, by decide⟩
    rw [htext, hbreak, hliteral, hbefore]
    have happend := indentAfterFirstLine?_append hfeed (hl.1 indent hindent) (c := '"') (by decide)
      (literal ++ (l.keySeparator ++ after))
    simpa using happend

/-- **On one line, the spacing of separators is told again.** -/
theorem hasSpacedSeparator_write
    (hv : (Json.object ((key, v) :: rest)).WellFormed) (hindent : l.indent = none) :
    hasSpacedSeparator (l.writeValue (.object ((key, v) :: rest)) ⟨0, false⟩).1 =
      l.spacedSeparators := by
  obtain ⟨after, htext, hafter⟩ := l.start_writeObject hv
  have hbreak : (l.separate true ⟨1, false⟩).1 = [] := by simp [separate, hindent]
  have hfirst : afterSeparator? .outside
      ('{' :: (Literal.write l.asciiOnly key ++ (l.keySeparator ++ after))) =
        afterSeparator? .outside (l.keySeparator ++ after) :=
    afterSeparator?_literal l.asciiOnly key _
  rw [htext, hbreak, List.nil_append, hasSpacedSeparator, hfirst]
  cases hspaced : l.spacedSeparators with
  | true => simp [keySeparator, hindent, hspaced, afterSeparator?]
  | false =>
    have hcolon : afterSeparator? .outside (l.keySeparator ++ after) = some after := by
      simp [keySeparator, hindent, hspaced, afterSeparator?]
    rw [hcolon]
    cases after with
    | nil => rfl
    | cons c after =>
      have hc : c ≠ ' ' := fun heq => hafter (by rw [heq]; rfl)
      simp [hc]

/-- **The way lines end is told again** if there are lines. -/
theorem lineEnding_write (hl : l.WellFormed) (hv : (Json.object ((key, v) :: rest)).WellFormed)
    (hlines : l.indent ≠ none ∨ l.finalLineEnd = true) :
    (if Text.contains ['\r', '\n'] (l.writeValue (.object ((key, v) :: rest)) ⟨0, false⟩).1 ||
        Text.endsWith ['\r', '\n']
          ((l.writeValue (.object ((key, v) :: rest)) ⟨0, false⟩).1 ++ l.ending) then
      LineEnding.crlf else .lf) = l.lineEnding := by
  cases hend : l.lineEnding with
  | lf =>
    refine if_neg fun hcrlf => ?_
    -- no carriage return is written, neither in the value nor at the end
    have hreturn : '\r' ∉ (l.writeValue (.object ((key, v) :: rest)) ⟨0, false⟩).1 := by
      intro hmem
      have hline := (admits_lineEnds hl).writeValue _ hv ⟨0, false⟩ '\r' hmem (Or.inr rfl)
      rw [hend] at hline
      exact absurd hline.2 (by decide)
    have hending : '\r' ∉ l.ending := by
      unfold ending
      rw [hend]
      split <;> decide
    rcases Bool.or_eq_true_iff.mp hcrlf with h | h
    · exact hreturn ((Text.contains_iff.mp h).subset List.mem_cons_self)
    · have hsuffix := (List.isSuffixOf_iff_suffix.mp h).subset List.mem_cons_self
      rcases List.mem_append.mp hsuffix with h | h
      · exact hreturn h
      · exact hending h
  | crlf =>
    refine if_pos (Bool.or_eq_true_iff.mpr ?_)
    by_cases hfinal : l.finalLineEnd = true
    · refine Or.inr (List.isSuffixOf_iff_suffix.mpr ?_)
      rw [ending, if_pos hfinal, hend]
      exact List.suffix_append _ _
    · have hindent := hlines.resolve_right hfinal
      obtain ⟨indent, hindent⟩ := Option.ne_none_iff_exists'.mp hindent
      obtain ⟨after, htext, -⟩ := l.start_writeObject hv
      refine Or.inl (Text.contains_iff.mpr ?_)
      rw [htext]
      have hbreak : (l.separate true ⟨1, false⟩).1 = ['\r', '\n'] ++ indent := by
        simp [separate, hindent, newLine, hend, LineEnding.text]
      rw [hbreak]
      exact ⟨['{'], indent ++ (Literal.write l.asciiOnly key ++ (l.keySeparator ++ after)), by simp⟩

/-- **Whether to keep to ASCII is told again**, unless it makes no difference. -/
theorem asciiOnly_write (hl : l.WellFormed) {v : Json} (hv : v.WellFormed) :
    l.asciiOnly = (Text.isAscii ((l.writeValue v ⟨0, false⟩).1 ++ l.ending) &&
        Text.contains ['\\', 'u'] ((l.writeValue v ⟨0, false⟩).1 ++ l.ending)) ∨ v.Ascii := by
  cases hascii : l.asciiOnly with
  | true =>
    have hending : ∀ c ∈ l.ending, c.toNat < 0x80 := by
      intro c hc
      rcases mem_ending hc with rfl | rfl
      · decide
      · decide
    have hall : Text.isAscii ((l.writeValue v ⟨0, false⟩).1 ++ l.ending) = true := by
      refine List.all_eq_true.mpr fun c hc => decide_eq_true ?_
      rcases List.mem_append.mp hc with hc | hc
      · exact (admits_ascii hl hascii).writeValue v hv _ c hc
      · exact hending c hc
    cases hescape : Text.contains ['\\', 'u'] ((l.writeValue v ⟨0, false⟩).1 ++ l.ending) with
    | true => exact Or.inl (by rw [hall]; rfl)
    | false =>
      refine Or.inr (ascii_of_showsAscii (l := l) v ⟨0, false⟩ ?_)
      rw [ShowsAscii, if_pos hascii]
      intro hwithin
      have hcontains := Text.contains_iff.mpr (hwithin.trans (List.prefix_append _ l.ending).isInfix)
      rw [hescape] at hcontains
      cases hcontains
  | false =>
    cases hall : Text.isAscii ((l.writeValue v ⟨0, false⟩).1 ++ l.ending) with
    | false => exact Or.inl rfl
    | true =>
      refine Or.inr (ascii_of_showsAscii (l := l) v ⟨0, false⟩ ?_)
      rw [ShowsAscii, if_neg (by rw [hascii]; exact Bool.false_ne_true)]
      intro c hc
      exact of_decide_eq_true (List.all_eq_true.mp hall c (List.mem_append_left _ hc))

/-- The document of an object, without the byte order mark that it may have. -/
theorem dropMark_write (l : Layout) (members : List (Text × Json)) :
    (l.write (.object members)).dropWhile (· = markChar) =
      (l.writeValue (.object members) ⟨0, false⟩).1 ++ l.ending := by
  obtain ⟨more, hmore⟩ : ∃ more,
      (l.writeValue (.object members) ⟨0, false⟩).1 ++ l.ending = '{' :: more := ⟨_, rfl⟩
  rw [write_eq_mark_body, body, ← ending, hmore]
  split
  · rw [List.singleton_append, List.dropWhile_cons_of_pos (by decide),
      List.dropWhile_cons_of_neg (by decide)]
  · rw [List.nil_append, List.dropWhile_cons_of_neg (by decide)]

/-- What stands at the end of an object's document is trimmed, and nothing else. -/
theorem trimEnd_writeObject (l : Layout) (members : List (Text × Json)) :
    Text.trimEnd ((l.writeValue (.object members) ⟨0, false⟩).1 ++ l.ending) =
      (l.writeValue (.object members) ⟨0, false⟩).1 := by
  obtain ⟨front, hfront⟩ := l.end_writeObject members ⟨0, false⟩
  rw [hfront]
  refine Text.trimEnd_append_blanks (by decide) fun c hc => ?_
  rcases mem_ending hc with rfl | rfl
  · decide
  · decide

/-- The document shows whether it starts with a byte order mark. -/
theorem byteOrderMark_write (l : Layout) (members : List (Text × Json)) :
    (detect (l.write (.object members))).byteOrderMark = l.byteOrderMark := by
  obtain ⟨more, hmore⟩ : ∃ more, l.body (.object members) = '{' :: more := ⟨_, rfl⟩
  change decide (_ = _) = _
  rw [write_eq_mark_body, hmore]
  cases l.byteOrderMark with
  | true => exact decide_eq_true rfl
  | false => exact decide_eq_false fun h => absurd (Option.some.inj h) (by decide)

/-- The document shows whether it ends with a line end. -/
theorem finalLineEnd_write (l : Layout) (members : List (Text × Json)) :
    Text.endsWith ['\n'] ((l.writeValue (.object members) ⟨0, false⟩).1 ++ l.ending) =
      l.finalLineEnd := by
  obtain ⟨front, hfront⟩ := l.end_writeObject members ⟨0, false⟩
  rw [hfront, ending, Text.endsWith]
  cases l.finalLineEnd with
  | true =>
    refine List.isSuffixOf_iff_suffix.mpr ?_
    cases l.lineEnding
    · exact List.suffix_append _ _
    · exact ⟨front ++ ['}'] ++ ['\r'], by simp [LineEnding.text]⟩
  | false =>
    refine Bool.eq_false_iff.mpr fun hsuffix => ?_
    obtain ⟨more, hmore⟩ := List.isSuffixOf_iff_suffix.mp hsuffix
    have hlast := congrArg List.getLast? hmore
    simp at hlast

/-- **What the document of a value shows of the layout that it is written in**: all of it, except
how lines end if no line ends, and whether it keeps to ASCII if all of the value does. -/
structure Shows (l shown : Layout) (v : Json) : Prop where
  /-- The indent is shown. -/
  indent : shown.indent = l.indent
  /-- The spacing of separators is shown. -/
  spacedSeparators : shown.spacedSeparators = l.spacedSeparators
  /-- How lines end is shown if one does. -/
  lineEnding : l.indent ≠ none ∨ l.finalLineEnd = true → shown.lineEnding = l.lineEnding
  /-- Keeping to ASCII is shown if it makes a difference. -/
  asciiOnly : shown.asciiOnly = l.asciiOnly ∨ v.Ascii
  /-- The byte order mark is shown. -/
  byteOrderMark : shown.byteOrderMark = l.byteOrderMark
  /-- The line end at the end is shown. -/
  finalLineEnd : shown.finalLineEnd = l.finalLineEnd

/-- **The document of an object shows the layout that it is written in.** -/
theorem shows_detect_write (hl : l.WellFormed)
    (hv : (Json.object ((key, v) :: rest)).WellFormed) :
    l.Shows (detect (l.write (.object ((key, v) :: rest)))) (.object ((key, v) :: rest)) := by
  have hbody := l.dropMark_write ((key, v) :: rest)
  have htrimmed := l.trimEnd_writeObject ((key, v) :: rest)
  refine ⟨?_, ?_, ?_, ?_, l.byteOrderMark_write _, ?_⟩
  · rw [detect, hbody, htrimmed]
    exact indentAfterFirstLine?_write hl hv
  · rw [detect, hbody, htrimmed]
    change ((indentAfterFirstLine? _).isNone && hasSpacedSeparator _) = _
    rw [indentAfterFirstLine?_write hl hv]
    cases hnone : l.indent with
    | none => exact hasSpacedSeparator_write hv hnone
    | some indent =>
      rw [hl.2 (by rw [hnone]; rfl)]
      rfl
  · rw [detect, hbody, htrimmed]
    exact lineEnding_write hl hv
  · rw [detect, hbody]
    exact (asciiOnly_write hl hv).imp_left Eq.symm
  · rw [detect, hbody]
    exact l.finalLineEnd_write _

/-- **A layout that is shown writes like the one that it is shown of**, and not only the value that
shows it: any value that brings nothing beyond ASCII where there was nothing. -/
theorem Shows.write_eq {shown : Layout} {v v' : Json} (h : l.Shows shown v)
    (hascii : v.Ascii → v'.Ascii) : shown.write v' = l.write v' := by
  have hagrees : shown.Agrees l :=
    ⟨h.indent, h.spacedSeparators, fun hne => h.lineEnding (Or.inl (h.indent ▸ hne))⟩
  rw [write, write, hagrees.writeValue_eq _ (h.asciiOnly.imp_right hascii), h.byteOrderMark,
    h.finalLineEnd]
  by_cases hlast : l.finalLineEnd = true
  · rw [h.lineEnding (Or.inr hlast)]
  · rw [if_neg hlast, if_neg hlast]

/-- A document on one line without a line end at its end shows no other line end than a line
feed. -/
theorem lineEnding_detect {document : Text} (hindent : (detect document).indent = none)
    (hfinal : (detect document).finalLineEnd = false) : (detect document).lineEnding = .lf := by
  refine if_neg fun hcrlf => ?_
  rcases Bool.or_eq_true_iff.mp hcrlf with hwithin | hend
  · have hfeed := indentAfterFirstLine?_eq_none_iff.mp hindent
    exact hfeed ((Text.contains_iff.mp hwithin).subset (by decide))
  · have hsuffix : ['\n'] <:+ document.dropWhile (· = markChar) :=
      (List.suffix_append ['\r'] ['\n']).trans (List.isSuffixOf_iff_suffix.mp hend)
    have hfeed : (detect document).finalLineEnd = true := List.isSuffixOf_iff_suffix.mpr hsuffix
    rw [hfinal] at hfeed
    cases hfeed

/-- **A layout that was told from a document is told again**, except for whether it keeps to
ASCII. -/
theorem Shows.detect_eq {document written : Text} {v : Json}
    (h : (detect document).Shows (detect written) v) :
    detect written = { detect document with asciiOnly := (detect written).asciiOnly } := by
  have hlineEnding : (detect written).lineEnding = (detect document).lineEnding := by
    by_cases hlines : (detect document).indent ≠ none ∨ (detect document).finalLineEnd = true
    · exact h.lineEnding hlines
    · -- no line ends in either text
      rw [not_or, not_not, Bool.not_eq_true] at hlines
      obtain ⟨hindent, hfinal⟩ := hlines
      rw [lineEnding_detect hindent hfinal,
        lineEnding_detect (h.indent.trans hindent) (h.finalLineEnd.trans hfinal)]
  calc detect written
      = ⟨(detect written).indent, (detect written).lineEnding, (detect written).spacedSeparators,
          (detect written).asciiOnly, (detect written).byteOrderMark,
          (detect written).finalLineEnd⟩ := rfl
    _ = _ := by
      rw [h.indent, hlineEnding, h.spacedSeparators, h.byteOrderMark, h.finalLineEnd]

end Layout
end NotebookTidy
