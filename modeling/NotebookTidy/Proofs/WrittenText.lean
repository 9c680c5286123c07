import Mathlib.Data.List.Infix
import NotebookTidy.Layout.Detect
import NotebookTidy.Proofs.DocumentRoundTrip

/-!
# The text of a written value

What is known of the text of a value without reading it: a property of single characters holds of
all of them if it holds of the few marks, of literals and of line breaks (`Admits.writeValue`); the
text has no trace of the parts of a layout that it has no use for (`Agrees.writeValue_eq`); and it
shows whether the strings of the value keep to ASCII (`ascii_of_showsAscii`).
-/

namespace NotebookTidy

/-! ## Characters of literals -/

namespace Hexadecimal

theorem digit_lt : ∀ n, n < 16 → (digit n).toNat < 0x80 ∧ digit n ∉ ['\n', '\r', '"', '\\'] := by
  decide

theorem mem_four {n : Nat} {c : Char} (h : c ∈ four n) :
    c.toNat < 0x80 ∧ c ∉ ['\n', '\r', '"', '\\'] := by
  simp only [four, List.mem_cons, List.not_mem_nil, or_false] at h
  rcases h with rfl | rfl | rfl | rfl
  all_goals exact digit_lt _ (Nat.mod_lt _ (by decide))

end Hexadecimal

namespace Literal

theorem mem_unitEscape {n : Nat} {c : Char} (h : c ∈ unitEscape n) :
    c.toNat < 0x80 ∧ c ≠ '\n' ∧ c ≠ '\r' := by
  rcases List.mem_cons.mp h with rfl | h
  · decide
  · rcases List.mem_cons.mp h with rfl | h
    · decide
    · obtain ⟨hascii, hother⟩ := Hexadecimal.mem_four h
      simp only [List.mem_cons, not_or] at hother
      exact ⟨hascii, hother.1, hother.2.1⟩

/-- The letters that stand for a character after a backslash. -/
def escapeLetters : Text := ['"', '\\', 'b', 't', 'n', 'f', 'r']

theorem of_mem_escapeLetters :
    ∀ x ∈ escapeLetters, (x ≠ '\n' ∧ x ≠ '\r') ∧ x.toNat < 0x80 :=
  List.forall_iff_forall_mem.mp (by decide)

/-- **How a character is written**: by a letter after a backslash, by the escapes of units, or as
itself. -/
inductive Escaped (ascii : Bool) (c : Char) : Text → Prop where
  | letter (x : Char) (hx : x ∈ escapeLetters) : Escaped ascii c ['\\', x]
  | units (us : List Nat) : Escaped ascii c (us.flatMap unitEscape)
  | itself (hquote : c ≠ '"') (hslash : c ≠ '\\') (hline : c ≠ '\n' ∧ c ≠ '\r')
    (hkeeps : c.toNat < 0x80 ∨ ascii = false) : Escaped ascii c [c]

theorem escaped_escape (ascii : Bool) (c : Char) : Escaped ascii c (escape ascii c) := by
  unfold escape
  split
  · exact .letter '"' (by decide)
  split
  · exact .letter '\\' (by decide)
  split
  · exact .letter 'b' (by decide)
  split
  · exact .letter 't' (by decide)
  split
  · exact .letter 'n' (by decide)
  split
  · exact .letter 'f' (by decide)
  split
  · exact .letter 'r' (by decide)
  split
  · have hunit : Escaped ascii c ([c.toNat].flatMap unitEscape) := .units [c.toNat]
    rwa [List.flatMap_singleton] at hunit
  split
  · exact .units (Literal.units c)
  · next hquote hslash _ _ hfeed _ hreturn _ hkeeps =>
    refine .itself hquote hslash ⟨hfeed, hreturn⟩ ?_
    by_cases hascii : c.toNat < 0x80
    · exact Or.inl hascii
    · refine Or.inr (Bool.eq_false_iff.mpr fun htrue => hkeeps ?_)
      rw [htrue, Bool.true_and, decide_eq_true (Nat.not_lt.mp hascii)]

/-- **The characters that a character is written with**: itself, or some of ASCII; a line end is
never one of them. -/
theorem mem_escape {ascii : Bool} {c d : Char} (h : d ∈ escape ascii c) :
    (d ≠ '\n' ∧ d ≠ '\r') ∧ (d.toNat < 0x80 ∨ d = c ∧ ascii = false) := by
  have hescaped := escaped_escape ascii c
  generalize escape ascii c = t at h hescaped
  cases hescaped with
  | letter x hx =>
    rcases List.mem_cons.mp h with rfl | h
    · exact ⟨by decide, Or.inl (by decide)⟩
    · rw [List.mem_singleton.mp h]
      exact (of_mem_escapeLetters x hx).imp_right Or.inl
  | units us =>
    obtain ⟨u, -, h⟩ := List.mem_flatMap.mp h
    exact ⟨(mem_unitEscape h).2, Or.inl (mem_unitEscape h).1⟩
  | itself hquote hslash hline hkeeps =>
    rw [List.mem_singleton.mp h]
    exact ⟨hline, hkeeps.imp_right fun hascii => ⟨rfl, hascii⟩⟩

theorem mem_write {ascii : Bool} {t : Text} {d : Char} (h : d ∈ write ascii t) :
    (d ≠ '\n' ∧ d ≠ '\r') ∧ (ascii = true → d.toNat < 0x80) := by
  rcases List.mem_append.mp h with h | h
  · rcases List.mem_cons.mp h with rfl | h
    · exact ⟨by decide, fun _ => by decide⟩
    · obtain ⟨c, -, h⟩ := List.mem_flatMap.mp h
      obtain ⟨hline, hascii⟩ := mem_escape h
      exact ⟨hline, fun hkeeps => hascii.resolve_right fun h => by simp [hkeeps] at h⟩
  · rw [List.mem_singleton.mp h]
    exact ⟨by decide, fun _ => by decide⟩

/-- In ASCII it makes no difference whether a literal keeps to it. -/
theorem escape_eq {c : Char} (h : c.toNat < 0x80) (ascii ascii' : Bool) :
    escape ascii c = escape ascii' c := by
  have hnot : ¬ 0x80 ≤ c.toNat := Nat.not_le.mpr h
  simp [escape, hnot]

theorem write_eq {t : Text} (h : ∀ c ∈ t, c.toNat < 0x80) (ascii ascii' : Bool) :
    write ascii t = write ascii' t := by
  have hescape : t.flatMap (escape ascii) = t.flatMap (escape ascii') :=
    List.flatMap_congr fun c hc => escape_eq (h c hc) ascii ascii'
  rw [write, write, hescape]

/-- A character beyond ASCII is written as it is, or as an escape of units. -/
theorem escape_of_not_ascii {c : Char} (h : 0x80 ≤ c.toNat) (ascii : Bool) :
    escape ascii c = if ascii then (units c).flatMap unitEscape else [c] := by
  have hne {d : Char} (hd : d.toNat < 0x80) : c ≠ d := by
    rintro rfl
    omega
  have hcontrol : ¬ c.toNat < 0x20 := by omega
  simp only [escape, hne (d := '"') (by decide), hne (d := '\\') (by decide),
    hne (d := '\x08') (by decide), hne (d := '\t') (by decide), hne (d := '\n') (by decide),
    hne (d := '\x0c') (by decide), hne (d := '\r') (by decide), hcontrol, h, if_false,
    decide_true, Bool.and_true]

theorem unitMark_infix_units (c : Char) : ['\\', 'u'] <:+: (units c).flatMap unitEscape := by
  obtain ⟨n, rest, hunits⟩ : ∃ n rest, units c = n :: rest := by
    by_cases hsmall : c.toNat < 0x10000
    · exact ⟨_, _, if_pos hsmall⟩
    · exact ⟨_, _, if_neg hsmall⟩
  rw [hunits]
  exact ⟨[], Hexadecimal.four n ++ rest.flatMap unitEscape, rfl⟩

theorem escape_infix_write {c : Char} {t : Text} (h : c ∈ t) (ascii : Bool) :
    escape ascii c <:+: write ascii t := by
  obtain ⟨before, after, rfl⟩ := List.append_of_mem h
  refine ⟨'"' :: before.flatMap (escape ascii), after.flatMap (escape ascii) ++ ['"'], ?_⟩
  simp [write, List.flatMap_append, List.flatMap_cons]

end Literal

namespace Layout

/-! ## Characters of values -/

/-- The marks of a written value and the letters of its names. -/
def writtenMarks : Text := "[]\x7b\x7d,: nultrefas-.e+".toList

/-- **A property of all characters that a layout writes**, of marks, digits, literals and line
breaks. -/
structure Admits (l : Layout) (q : Char → Prop) : Prop where
  /-- The marks and the letters of names. -/
  marks : ∀ c ∈ writtenMarks, q c
  /-- The digits of numerals. -/
  digits : ∀ c, Decimal.isDigit c = true → q c
  /-- The characters of literals. -/
  literals : ∀ t, ∀ c ∈ Literal.write l.asciiOnly t, q c
  /-- The characters of line breaks. -/
  lines : ∀ indent ∈ l.indent, ∀ pen, ∀ c ∈ l.newLine indent pen, q c

namespace Admits
variable {l : Layout} {q : Char → Prop}

theorem closeBracket (h : l.Admits q) {bracket : Char} (hbracket : q bracket) (pen : Pen) :
    ∀ c ∈ (l.closeBracket bracket pen).1, q c := by
  intro c hc
  unfold Layout.closeBracket at hc
  cases hindent : l.indent with
  | none =>
    simp only [hindent, List.mem_singleton] at hc
    rw [hc]
    exact hbracket
  | some indent =>
    simp only [hindent] at hc
    rcases List.mem_append.mp hc with hc | hc
    · split at hc
      · exact h.lines indent hindent _ c hc
      · cases hc
    · rw [List.mem_singleton.mp hc]
      exact hbracket

theorem separate (h : l.Admits q) (first : Bool) (pen : Pen) :
    ∀ c ∈ (l.separate first pen).1, q c := by
  intro c hc
  unfold Layout.separate at hc
  cases hindent : l.indent with
  | none =>
    simp only [hindent] at hc
    split_ifs at hc
    · cases hc
    · exact h.marks c ((by decide : [',', ' '] ⊆ writtenMarks) hc)
    · exact h.marks c ((by decide : [','] ⊆ writtenMarks) hc)
  | some indent =>
    simp only [hindent] at hc
    rcases List.mem_append.mp hc with hc | hc
    · split at hc
      · cases hc
      · exact h.marks c ((by decide : [','] ⊆ writtenMarks) hc)
    · exact h.lines indent hindent pen c hc

theorem keySeparator (h : l.Admits q) : ∀ c ∈ l.keySeparator, q c := by
  intro c hc
  unfold Layout.keySeparator at hc
  split at hc
  · exact h.marks c ((by decide : [':', ' '] ⊆ writtenMarks) hc)
  · exact h.marks c ((by decide : [':'] ⊆ writtenMarks) hc)

theorem followedBy {a b : Stroke} {pen : Pen} (ha : ∀ c ∈ (a pen).1, q c)
    (hb : ∀ pen, ∀ c ∈ (b pen).1, q c) : ∀ c ∈ (a.followedBy b pen).1, q c := by
  intro c hc
  rw [followedBy_fst] at hc
  rcases List.mem_append.mp hc with hc | hc
  · exact ha c hc
  · exact hb _ c hc

mutual

/-- **Every character of a written value has the property.** -/
theorem writeValue (h : l.Admits q) :
    ∀ v : Json, v.WellFormed → ∀ pen, ∀ c ∈ (l.writeValue v pen).1, q c
  | .null, _, _, c, hc =>
    h.marks c ((by decide : "null".toList ⊆ writtenMarks) hc)
  | .boolean true, _, _, c, hc =>
    h.marks c ((by decide : "true".toList ⊆ writtenMarks) hc)
  | .boolean false, _, _, c, hc =>
    h.marks c ((by decide : "false".toList ⊆ writtenMarks) hc)
  | .number n, hv, _, c, hc => by
    rcases Number.mem_write hv hc with hdigit | hmark
    · exact h.digits c hdigit
    · exact h.marks c ((by decide : ['-', '.', 'e', '+'] ⊆ writtenMarks) hmark)
  | .string t, _, _, c, hc => h.literals t c hc
  | .array items, hv, pen, c, hc => by
    have hopen : ∀ c ∈ (openBracket '[' pen).1, q c := by
      intro c hc
      rw [List.mem_singleton.mp hc]
      exact h.marks '[' (by decide)
    rw [Layout.writeValue] at hc
    exact followedBy (followedBy hopen (writeItems h items hv true))
      (h.closeBracket (h.marks ']' (by decide))) c hc
  | .object members, hv, pen, c, hc => by
    have hopen : ∀ c ∈ (openBracket '{' pen).1, q c := by
      intro c hc
      rw [List.mem_singleton.mp hc]
      exact h.marks '{' (by decide)
    rw [Layout.writeValue] at hc
    exact followedBy (followedBy hopen (writeMembers h members hv.2.2 true))
      (h.closeBracket (h.marks '}' (by decide))) c hc

theorem writeItems (h : l.Admits q) :
    ∀ items : List Json, Json.WellFormedItems items → ∀ first pen,
      ∀ c ∈ (l.writeItems first items pen).1, q c
  | [], _, _, _, _, hc => nomatch hc
  | v :: rest, hv, first, pen, c, hc => by
    rw [Layout.writeItems] at hc
    refine followedBy (followedBy (h.separate first pen) fun pen => ?_)
      (writeItems h rest hv.2 false) c hc
    exact followedBy (writeValue h v hv.1 pen) fun _ _ hnone => nomatch hnone

theorem writeMembers (h : l.Admits q) :
    ∀ members : List (Text × Json), Json.WellFormedMembers members → ∀ first pen,
      ∀ c ∈ (l.writeMembers first members pen).1, q c
  | [], _, _, _, _, hc => nomatch hc
  | (key, v) :: rest, hv, first, pen, c, hc => by
    have hkey : ∀ c ∈ Literal.write l.asciiOnly key ++ l.keySeparator, q c := by
      intro c hc
      rcases List.mem_append.mp hc with hc | hc
      · exact h.literals key c hc
      · exact h.keySeparator c hc
    rw [Layout.writeMembers] at hc
    refine followedBy (followedBy (h.separate first pen) fun pen => ?_)
      (writeMembers h rest hv.2 false) c hc
    refine followedBy hkey fun pen => ?_
    exact followedBy (writeValue h v hv.1 pen) fun _ _ hnone => nomatch hnone

end

end Admits

end Layout

/-! ## Values in ASCII -/

namespace Json

mutual

/-- All strings of the value keep to ASCII, keys included. -/
def Ascii : Json → Prop
  | .string t => ∀ c ∈ t, c.toNat < 0x80
  | .array items => AsciiItems items
  | .object members => AsciiMembers members
  | _ => True

/-- All strings of the items keep to ASCII. -/
def AsciiItems : List Json → Prop
  | [] => True
  | v :: rest => Ascii v ∧ AsciiItems rest

/-- All strings of the members keep to ASCII. -/
def AsciiMembers : List (Text × Json) → Prop
  | [] => True
  | (key, v) :: rest => (∀ c ∈ key, c.toNat < 0x80) ∧ Ascii v ∧ AsciiMembers rest

end

end Json

namespace Layout

/-- A written text shows that its strings keep to ASCII: it is in ASCII, or no string has been
escaped. -/
def ShowsAscii (l : Layout) (t : Text) : Prop :=
  if l.asciiOnly then ¬ ['\\', 'u'] <:+: t else ∀ c ∈ t, c.toNat < 0x80

theorem ShowsAscii.mono {l : Layout} {s t : Text} (h : l.ShowsAscii t) (hst : s <:+: t) :
    l.ShowsAscii s := by
  by_cases hescapes : l.asciiOnly = true
  · rw [ShowsAscii, if_pos hescapes] at h ⊢
    exact fun hs => h (hs.trans hst)
  · rw [ShowsAscii, if_neg hescapes] at h ⊢
    exact fun c hc => h c (hst.subset hc)

theorem ShowsAscii.append {l : Layout} {a b : Text} (h : l.ShowsAscii (a ++ b)) :
    l.ShowsAscii a ∧ l.ShowsAscii b :=
  ⟨h.mono (List.prefix_append a b).isInfix, h.mono (List.suffix_append a b).isInfix⟩

theorem ShowsAscii.literal {l : Layout} {t : Text} (h : l.ShowsAscii (Literal.write l.asciiOnly t)) :
    ∀ c ∈ t, c.toNat < 0x80 := by
  intro c hc
  by_contra hascii
  have hbeyond := Nat.not_lt.mp hascii
  have hescape := h.mono (Literal.escape_infix_write hc l.asciiOnly)
  rw [Literal.escape_of_not_ascii hbeyond] at hescape
  by_cases hescapes : l.asciiOnly = true
  · rw [ShowsAscii, if_pos hescapes, if_pos hescapes] at hescape
    exact hescape (Literal.unitMark_infix_units c)
  · rw [ShowsAscii, if_neg hescapes, if_neg hescapes] at hescape
    exact hascii (hescape c List.mem_cons_self)

mutual

/-- **Where the text shows that the strings keep to ASCII, they do.** -/
theorem ascii_of_showsAscii {l : Layout} :
    ∀ (v : Json) (pen : Pen), l.ShowsAscii (l.writeValue v pen).1 → v.Ascii
  | .null, _, _ => trivial
  | .boolean _, _, _ => trivial
  | .number _, _, _ => trivial
  | .string _, _, h => h.literal
  | .array items, _, h => by
    rw [writeValue, followedBy_fst, followedBy_fst] at h
    exact asciiItems_of_showsAscii items true _ h.append.1.append.2
  | .object members, _, h => by
    rw [writeValue, followedBy_fst, followedBy_fst] at h
    exact asciiMembers_of_showsAscii members true _ h.append.1.append.2

theorem asciiItems_of_showsAscii {l : Layout} :
    ∀ (items : List Json) (first : Bool) (pen : Pen),
      l.ShowsAscii (l.writeItems first items pen).1 → Json.AsciiItems items
  | [], _, _, _ => trivial
  | v :: rest, _, _, h => by
    rw [writeItems, followedBy_fst, followedBy_fst, followedBy_fst] at h
    obtain ⟨hitem, hrest⟩ := h.append
    exact ⟨ascii_of_showsAscii v _ hitem.append.2.append.1, asciiItems_of_showsAscii rest _ _ hrest⟩

theorem asciiMembers_of_showsAscii {l : Layout} :
    ∀ (members : List (Text × Json)) (first : Bool) (pen : Pen),
      l.ShowsAscii (l.writeMembers first members pen).1 → Json.AsciiMembers members
  | [], _, _, _ => trivial
  | (key, v) :: rest, _, _, h => by
    rw [writeMembers, followedBy_fst, followedBy_fst, followedBy_fst, followedBy_fst,
      Stroke.text_apply] at h
    obtain ⟨hmember, hrest⟩ := h.append
    obtain ⟨hkey, hvalue⟩ := hmember.append.2.append
    exact ⟨hkey.append.1.literal, ascii_of_showsAscii v _ hvalue.append.1,
      asciiMembers_of_showsAscii rest _ _ hrest⟩

end

/-! ## Layouts that write alike -/

/-- Layouts that differ at most in whether they keep to ASCII, and in how lines end if there are
none. -/
structure Agrees (l l' : Layout) : Prop where
  /-- The indent is the same. -/
  indent : l.indent = l'.indent
  /-- Separators are the same. -/
  spacedSeparators : l.spacedSeparators = l'.spacedSeparators
  /-- Lines end in the same way if there are lines. -/
  lineEnding : l.indent ≠ none → l.lineEnding = l'.lineEnding

namespace Agrees
variable {l l' : Layout}

theorem newLine_eq (h : l.Agrees l') {indent : Text} (hindent : l.indent = some indent) (pen : Pen) :
    l.newLine indent pen = l'.newLine indent pen := by
  rw [newLine, newLine, h.lineEnding (by simp [hindent])]

theorem closeBracket_eq (h : l.Agrees l') (bracket : Char) :
    l.closeBracket bracket = l'.closeBracket bracket := by
  funext pen
  unfold closeBracket
  rw [← h.indent]
  cases hindent : l.indent with
  | none => rfl
  | some indent => simp only [h.newLine_eq hindent]

theorem separate_eq (h : l.Agrees l') (first : Bool) : l.separate first = l'.separate first := by
  funext pen
  unfold separate
  rw [← h.indent, h.spacedSeparators]
  cases hindent : l.indent with
  | none => rfl
  | some indent => simp only [h.newLine_eq hindent]

theorem keySeparator_eq (h : l.Agrees l') : l.keySeparator = l'.keySeparator := by
  rw [keySeparator, keySeparator, h.indent, h.spacedSeparators]

theorem literal_eq {t : Text} (ht : l.asciiOnly = l'.asciiOnly ∨ ∀ c ∈ t, c.toNat < 0x80) :
    Literal.write l.asciiOnly t = Literal.write l'.asciiOnly t := by
  rcases ht with heq | hascii
  · rw [heq]
  · exact Literal.write_eq hascii _ _

mutual

/-- **Layouts that agree write alike** what they both escape in the same way. -/
theorem writeValue_eq (h : l.Agrees l') :
    ∀ v : Json, l.asciiOnly = l'.asciiOnly ∨ v.Ascii → l.writeValue v = l'.writeValue v
  | .null, _ => rfl
  | .boolean true, _ => rfl
  | .boolean false, _ => rfl
  | .number _, _ => rfl
  | .string t, hv => by rw [writeValue, writeValue, literal_eq hv]
  | .array items, hv => by
    rw [writeValue, writeValue, writeItems_eq h items hv, h.closeBracket_eq]
  | .object members, hv => by
    rw [writeValue, writeValue, writeMembers_eq h members hv, h.closeBracket_eq]

theorem writeItems_eq (h : l.Agrees l') :
    ∀ items : List Json, l.asciiOnly = l'.asciiOnly ∨ Json.AsciiItems items →
      ∀ first, l.writeItems first items = l'.writeItems first items
  | [], _, _ => rfl
  | v :: rest, hv, first => by
    rw [writeItems, writeItems, h.separate_eq, writeValue_eq h v (hv.imp_right And.left),
      writeItems_eq h rest (hv.imp_right And.right)]

theorem writeMembers_eq (h : l.Agrees l') :
    ∀ members : List (Text × Json), l.asciiOnly = l'.asciiOnly ∨ Json.AsciiMembers members →
      ∀ first, l.writeMembers first members = l'.writeMembers first members
  | [], _, _ => rfl
  | (key, v) :: rest, hv, first => by
    rw [writeMembers, writeMembers, h.separate_eq, h.keySeparator_eq,
      literal_eq (hv.imp_right And.left), writeValue_eq h v (hv.imp_right fun h => h.2.1),
      writeMembers_eq h rest (hv.imp_right fun h => h.2.2)]

end

end Agrees

end Layout
end NotebookTidy
