import NotebookTidy.Proofs.FaultyNotebooks
import NotebookTidy.Proofs.FirstKeys

/-!
# The separator behind the first key

Whether separators are spaced is told by the first colon outside strings, which is searched for in
the text and not among tokens.  The search has three states, and it has to leave a string where the
string ends: whatever is spelled between quotes, a colon, an escaped quote, any number of
backslashes, or the four digits of a unit, the search comes out behind the closing quote
(`Layout.afterSeparator?_spelled`).

`Opening` is how a document starts, up to the colon behind its first key; the search finds this
colon and no other, so a document has its first key in one place only.
`Notebook.spacedSeparators_iff` says of every document on one line that is a notebook's: its
separators are spaced if and only if a space follows this colon.
-/

namespace NotebookTidy

/-! ## The search for the separator -/

/-- Every character of a number in digits is a digit. -/
theorem Hexadecimal.value?_ne_none {digits : Text} {n : Nat} (h : read? digits = some n) :
    ∀ c ∈ digits, value? c ≠ none := by
  unfold read? at h
  generalize 0 = start at h
  induction digits generalizing start with
  | nil => exact List.forall_mem_nil _
  | cons c digits ih =>
    rw [List.foldlM_cons] at h
    obtain ⟨value, hvalue, hrest⟩ := Option.bind_eq_some_iff.mp h
    obtain ⟨d, hd, -⟩ := Option.map_eq_some_iff.mp hvalue
    exact List.forall_mem_cons.mpr ⟨by rw [hd]; exact Option.some_ne_none d, ih value hrest⟩

namespace Layout

/-- The search goes on behind blanks. -/
theorem afterSeparator?_blanks {blanks : Text} (h : ∀ c ∈ blanks, Token.isSpace c = true)
    (t : Text) : afterSeparator? .outside (blanks ++ t) = afterSeparator? .outside t := by
  induction blanks with
  | nil => rfl
  | cons c blanks ih =>
    obtain ⟨hc, hblanks⟩ := List.forall_mem_cons.mp h
    have hquote : c ≠ '"' := by
      rintro rfl
      cases hc
    have hcolon : c ≠ ':' := by
      rintro rfl
      cases hc
    rw [List.cons_append, afterSeparator?, if_neg hquote, if_neg hcolon, ih hblanks]

/-- **Whatever is spelled in a string, the search leaves the string where it ends.** -/
theorem afterSeparator?_spelled {pieces : List Literal.Piece} {raw : Text}
    (h : Literal.Spells pieces raw) (t : Text) :
    afterSeparator? .inside (raw ++ '"' :: t) = afterSeparator? .outside t := by
  induction h with
  | nil => rfl
  | char quote backslash rest ih =>
    rw [List.cons_append, afterSeparator?, if_neg backslash, if_neg quote, ih]
  | short escape rest ih =>
    -- what stands behind the backslash is passed over, be it a quote or a backslash
    exact ih
  | @unit digits n pieces raw four value rest ih =>
    have hdigits : ∀ c ∈ digits, c ≠ '\\' ∧ c ≠ '"' := by
      intro c hc
      have hvalue := Hexadecimal.value?_ne_none value c hc
      constructor
      · rintro rfl
        exact hvalue rfl
      · rintro rfl
        exact hvalue rfl
    change afterSeparator? .inside (digits ++ raw ++ '"' :: t) = _
    rw [List.append_assoc, afterSeparator?_inside hdigits, ih]

/-- A separator is spaced if a space follows the colon that is found. -/
theorem hasSpacedSeparator_iff {t rest : Text} (h : afterSeparator? .outside t = some rest) :
    hasSpacedSeparator t = true ↔ rest.head? = some ' ' := by
  rw [hasSpacedSeparator, h]
  cases rest with
  | nil => simp
  | cons c rest =>
    by_cases hc : c = ' '
    · simp [hc]
    · simp [hc]

end Layout

/-! ## How a document starts -/

/-- **How a document starts**, up to the colon behind its first key: blanks, the bracket of an
object, and the key between quotes, with blanks before and behind it. -/
inductive Opening (key : Text) : Text → Prop
  | spelled {before inside behind raw : Text} {pieces : List Literal.Piece}
      (blanks : ∀ c ∈ before ++ (inside ++ behind), Token.isSpace c = true)
      (spells : Literal.Spells pieces raw) (text : Literal.text? pieces = some key) :
      Opening key (before ++ '{' :: (inside ++ '"' :: (raw ++ '"' :: behind)) ++ [':'])

namespace Opening
variable {key opening : Text}

/-- The colon behind the first key is the first outside strings. -/
theorem afterSeparator? (h : Opening key opening) (rest : Text) :
    Layout.afterSeparator? .outside (opening ++ rest) = some rest := by
  cases h with
  | @spelled before inside behind raw pieces blanks spells text =>
    simp only [List.forall_mem_append] at blanks
    obtain ⟨hbefore, hinside, hbehind⟩ := blanks
    simp only [List.append_assoc, List.cons_append]
    rw [Layout.afterSeparator?_blanks hbefore]
    change Layout.afterSeparator? .outside (inside ++ _) = _
    rw [Layout.afterSeparator?_blanks hinside]
    -- behind the quote the key begins, which the search is inside of until it ends
    change Layout.afterSeparator? .inside (raw ++ _) = _
    rw [Layout.afterSeparator?_spelled spells, Layout.afterSeparator?_blanks hbehind]
    rfl

/-- What is trimmed at the end of a document stands behind its opening. -/
theorem trimEnd_append (h : Opening key opening) (mark rest : Text) :
    Text.trimEnd (mark ++ (opening ++ rest)) = mark ++ (opening ++ Text.trimEnd rest) := by
  obtain ⟨front, rfl⟩ : ∃ front, opening = front ++ [':'] := by
    cases h
    exact ⟨_, rfl⟩
  simpa using Text.trimEnd_append_cons (c := ':') rfl (mark ++ front) rest

/-- An opening does not start with a byte order mark. -/
theorem dropMark_append (h : Opening key opening) (rest : Text) :
    (opening ++ rest).dropWhile (· = Layout.markChar) = opening ++ rest := by
  cases h with
  | @spelled before inside behind raw pieces blanks spells text =>
    cases before with
    | nil => exact List.dropWhile_cons_of_neg (by decide)
    | cons c before =>
      -- it starts with a blank, and a byte order mark is none
      refine List.dropWhile_cons_of_neg ?_
      intro hmark
      have hspace := (List.forall_mem_cons.mp blanks).1
      rw [of_decide_eq_true hmark] at hspace
      cases hspace

/-- A text that spells an object's bracket, a key and a colon starts with an opening. -/
theorem of_spells {pieces : List Literal.Piece} {ts : List Token} {t : Text}
    (h : Token.Spells (.openObject :: .literal pieces :: .colon :: ts) t)
    (hkey : Literal.text? pieces = some key) :
    ∃ opening rest, Opening key opening ∧ t = opening ++ rest ∧ Token.Spells ts rest := by
  obtain ⟨before, bracket, u, rfl, hbefore, hbracket, hu⟩ := h.of_cons
  obtain rfl : bracket = ['{'] := hbracket.eq_mark rfl
  obtain ⟨inside, word, v, rfl, hinside, hword, hv⟩ := hu.of_cons
  obtain ⟨raw, rfl, hraw⟩ := hword.eq_literal
  obtain ⟨behind, colon, rest, rfl, hbehind, hcolon, hrest⟩ := hv.of_cons
  obtain rfl : colon = [':'] := hcolon.eq_mark rfl
  have hblanks : ∀ c ∈ before ++ (inside ++ behind), Token.isSpace c = true := by
    simp only [List.forall_mem_append]
    exact ⟨hbefore, hinside, hbehind⟩
  exact ⟨_, rest, .spelled hblanks hraw hkey, by simp, hrest⟩

end Opening

/-! ## Documents of notebooks -/

namespace Notebook
variable {document key rest : Text} {n : Notebook}

/-- **The document starts with this first key**, after a byte order mark or without one, and this
is the rest of the document, behind the colon. -/
def HasFirstKey (document key rest : Text) : Prop :=
  ∃ opening, Opening key opening ∧
    (document = opening ++ rest ∨ document = Layout.markChar :: (opening ++ rest))

theorem HasFirstKey.exists_opening (h : HasFirstKey document key rest) :
    ∃ mark opening, Opening key opening ∧ document = mark ++ (opening ++ rest) ∧
      document.dropWhile (· = Layout.markChar) = opening ++ rest := by
  obtain ⟨opening, hopening, rfl | rfl⟩ := h
  · exact ⟨[], opening, hopening, rfl, hopening.dropMark_append rest⟩
  · refine ⟨[Layout.markChar], opening, hopening, rfl, ?_⟩
    rw [List.dropWhile_cons_of_pos (by decide), hopening.dropMark_append]

/-- **A document has its first key in one place**: the rest behind the colon is one and the same. -/
theorem HasFirstKey.rest_unique {key' rest' : Text} (h : HasFirstKey document key rest)
    (h' : HasFirstKey document key' rest') : rest = rest' := by
  obtain ⟨-, opening, hopening, -, hbody⟩ := h.exists_opening
  obtain ⟨-, opening', hopening', -, hbody'⟩ := h'.exists_opening
  -- both are what the search finds behind the first colon outside strings
  have hrest := hopening.afterSeparator? rest
  rw [← hbody, hbody', hopening'.afterSeparator?] at hrest
  exact (Option.some.inj hrest).symm

/-- The document of a notebook has a first key, with a value behind it. -/
theorem exists_hasFirstKey (h : read document = .ok n) :
    ∃ key value more rest, n.toJson = .object ((key, value) :: more) ∧
      HasFirstKey document key rest ∧ ∃ c ∈ rest, Text.isBlank c = false := by
  obtain ⟨text, hdocument, hread⟩ := holds_iff.mpr (of_read h).1
  obtain ⟨tokens, htokens, hvalue⟩ := Option.bind_eq_some_iff.mp hread
  obtain ⟨key, value, more, hmembers⟩ := n.toJson_eq_cons
  have hfirst : n.toJson.firstKey? = some key := by rw [hmembers]; rfl
  obtain ⟨pieces, ts, rfl, hts, hkey⟩ := Json.exists_tokens_of_firstKey? hvalue hfirst
  obtain ⟨opening, rest, hopening, rfl, hrest⟩ :=
    Opening.of_spells (Token.spells_of_ofText? htokens) hkey
  exact ⟨key, value, more, rest, hmembers, ⟨opening, hopening, hdocument⟩,
    hrest.exists_not_blank hts⟩

/-- On one line, what is told of the separators is told by what follows the first key's colon. -/
theorem HasFirstKey.spacedSeparators_iff_head? (h : HasFirstKey document key rest)
    (hline : '\n' ∉ Text.trimEnd document) :
    (Layout.detect document).spacedSeparators = true ↔ (Text.trimEnd rest).head? = some ' ' := by
  obtain ⟨mark, opening, hopening, hdocument, hbody⟩ := h.exists_opening
  have htrimmed : Text.trimEnd (opening ++ rest) = opening ++ Text.trimEnd rest :=
    hopening.trimEnd_append [] rest
  -- without the mark the document is still on one line
  have hfeed : '\n' ∉ opening ++ Text.trimEnd rest := by
    intro hmem
    apply hline
    rw [hdocument, hopening.trimEnd_append]
    exact List.mem_append_right mark hmem
  have hindent := Layout.indentAfterFirstLine?_eq_none_iff.mpr hfeed
  rw [Layout.detect, hbody, htrimmed, hindent]
  exact Layout.hasSpacedSeparator_iff (hopening.afterSeparator? _)

/-- **The separators of a document on one line are told by the character behind its first colon.**
The document of a notebook starts with the first key of the notebook's value; if no line feed stands
before the blanks at its end, its separators are spaced if and only if the colon behind this key has
a space behind it, whatever is spelled in the key and whatever blanks stand before the colon. -/
theorem spacedSeparators_iff (h : read document = .ok n) (hline : '\n' ∉ Text.trimEnd document) :
    (∃ key value more rest, n.toJson = .object ((key, value) :: more) ∧
      HasFirstKey document key rest) ∧
    ∀ key rest, HasFirstKey document key rest →
      ((Layout.detect document).spacedSeparators = true ↔ rest.head? = some ' ') := by
  obtain ⟨key, value, more, rest, hmembers, hfirst, hvalue⟩ := exists_hasFirstKey h
  refine ⟨⟨key, value, more, rest, hmembers, hfirst⟩, ?_⟩
  intro key' rest' hfirst'
  obtain rfl := hfirst.rest_unique hfirst'
  rw [hfirst.spacedSeparators_iff_head? hline, Text.head?_trimEnd hvalue]

/-- A document whose first key has colons, a quote and backslashes in it, behind a byte order mark
and with blanks before its colon. -/
def colonDocument : Text :=
  "\uFEFF \x7b\t\"a:\\\"\\u003a\\\\\\\\\"\t\r : 1,\"cells\":[]\x7d\n".toList

/-- The first key of this document. -/
def colonKey : Text := "a:\":\\\\".toList

/-- What follows the colon behind it. -/
def colonRest : Text := " 1,\"cells\":[]\x7d\n".toList

theorem hasFirstKey_colonDocument : HasFirstKey colonDocument colonKey colonRest := by
  have hspells : Literal.Spells
      [.char 'a', .char ':', .char '"', .unit 0x3a, .char '\\', .char '\\']
      "a:\\\"\\u003a\\\\\\\\".toList := by
    refine .char (by decide) (by decide) (.char (by decide) (by decide) (.short rfl ?_))
    exact @Literal.Spells.unit ['0', '0', '3', 'a'] _ _ _ rfl rfl (.short rfl (.short rfl .nil))
  have hblanks : ∀ c ∈ [' '] ++ (['\t'] ++ ['\t', '\r', ' ']), Token.isSpace c = true :=
    List.forall_iff_forall_mem.mp (by decide)
  exact ⟨_, .spelled hblanks hspells rfl, .inr (by decide)⟩

theorem spacedSeparators_of_colonDocument : ∃ n, read colonDocument = .ok n ∧
    '\n' ∉ Text.trimEnd colonDocument ∧ (Layout.detect colonDocument).spacedSeparators = true ∧
    ((∃ key value more rest, n.toJson = .object ((key, value) :: more) ∧
      HasFirstKey colonDocument key rest) ∧
    ∀ key rest, HasFirstKey colonDocument key rest →
      ((Layout.detect colonDocument).spacedSeparators = true ↔ rest.head? = some ' ')) := by
  have hline : '\n' ∉ Text.trimEnd colonDocument := by decide
  obtain ⟨n, hread⟩ : ∃ n, read colonDocument = .ok n := ⟨_, rfl⟩
  obtain ⟨hfirst, hspaced⟩ := spacedSeparators_iff hread hline
  exact ⟨n, hread, hline, (hspaced _ _ hasFirstKey_colonDocument).mpr rfl, hfirst, hspaced⟩

end Notebook
end NotebookTidy
