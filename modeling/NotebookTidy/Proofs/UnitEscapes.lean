import NotebookTidy.Proofs.FaultyNotebooks

/-!
# Documents that keep to ASCII on purpose

A layout keeps to ASCII if its document does and a backslash with a letter u behind it occurs in the
document.  This is a search in the text, which knows nothing of strings.  In a document that spells
tokens a backslash stands only in a string, as the start of an escape or as the second character of
an escaped backslash.  So what is found is a `\u` escape, or the letter u after an escaped backslash
(`Token.Spells.unitMark_infix_iff`), as in a path `C:\\users`.

`Notebook.asciiOnly_iff` says so of every document that is a notebook's.
-/

namespace NotebookTidy

/-- What is searched for in documents: the start of a `\u` escape. -/
def unitMark : Text := ['\\', 'u']

/-- The start of an escape is not found at another character than a backslash. -/
theorem unitMark_infix_cons_iff {c : Char} (h : c ≠ '\\') (t : Text) :
    unitMark <:+: c :: t ↔ unitMark <:+: t := by
  rw [List.infix_cons_iff, or_iff_right]
  intro hstart
  exact h (List.cons_prefix_cons.mp hstart).1.symm

/-- The start of an escape is not found before the first backslash. -/
theorem unitMark_infix_append_iff {word : Text} (h : '\\' ∉ word) (t : Text) :
    unitMark <:+: word ++ t ↔ unitMark <:+: t := by
  induction word with
  | nil => rfl
  | cons c word ih =>
    rw [List.mem_cons, not_or] at h
    rw [List.cons_append, unitMark_infix_cons_iff (Ne.symm h.1), ih h.2]

namespace Literal

/-- No short escape is of the letter u or for it, and only a backslash's has one behind its own. -/
theorem of_shortEscape? {c d : Char} (h : shortEscape? c = some d) :
    c ≠ 'u' ∧ d ≠ 'u' ∧ (c = '\\' ↔ d = '\\') := by
  unfold shortEscape? at h
  split at h
  all_goals cases h
  all_goals decide

/-- A letter u is spelled first if and only if it is the first of the pieces. -/
theorem Spells.starts_with_u_iff {pieces : List Piece} {raw : Text} (h : Spells pieces raw)
    (t : Text) : ['u'] <+: raw ++ '"' :: t ↔ [.char 'u'] <+: pieces := by
  cases h with
  | nil => simp
  | char quote backslash rest => simp
  | short escape rest => simp [(of_shortEscape? escape).2.1.symm]
  | unit four value rest => simp

/-- **The start of an escape is found between quotes** if there is a unit, or the letter u behind a
backslash. -/
theorem Spells.unitMark_infix_iff {pieces : List Piece} {raw : Text} (h : Spells pieces raw)
    (t : Text) : unitMark <:+: raw ++ '"' :: t ↔
      ((∃ n, .unit n ∈ pieces) ∨ [.char '\\', .char 'u'] <:+: pieces) ∨ unitMark <:+: t := by
  induction h with
  | nil =>
    rw [List.nil_append, unitMark_infix_cons_iff (by decide)]
    simp
  | char quote backslash rest ih =>
    rw [List.cons_append, unitMark_infix_cons_iff backslash, ih]
    simp [List.infix_cons_iff, List.cons_prefix_cons, Ne.symm backslash]
  | @short c d pieces raw escape rest ih =>
    obtain ⟨hc, -, hbackslash⟩ := of_shortEscape? escape
    have hfirst : ¬ unitMark <+: '\\' :: c :: (raw ++ '"' :: t) := by
      intro h
      exact hc (List.cons_prefix_cons.mp (List.cons_prefix_cons.mp h).2).1.symm
    -- the second character of an escaped backslash may have the letter behind it
    have hsecond : unitMark <+: c :: (raw ++ '"' :: t) ↔
        [.char '\\', .char 'u'] <+: .char d :: pieces := by
      rw [unitMark, List.cons_prefix_cons, List.cons_prefix_cons, rest.starts_with_u_iff,
        Piece.char.injEq, eq_comm, hbackslash, eq_comm]
    rw [List.cons_append, List.cons_append, List.infix_cons_iff, or_iff_right hfirst,
      List.infix_cons_iff, hsecond, ih, List.infix_cons_iff]
    simp [or_left_comm, or_assoc]
  | unit four value rest ih =>
    refine iff_of_true ?_ (.inl (.inl ⟨_, List.mem_cons_self ..⟩))
    exact ⟨[], _, rfl⟩

end Literal

namespace Token

/-- In the string an escaped backslash has the letter u behind it. -/
def HasLookalike : Token → Prop
  | .literal pieces => [.char '\\', .char 'u'] <:+: pieces
  | _ => False

/-- The start of a `\u` escape is found in the token. -/
def HasUnitMark (token : Token) : Prop := token.hasUnitEscape = true ∨ token.HasLookalike

theorem hasUnitMark_literal_iff {pieces : List Literal.Piece} :
    (literal pieces).HasUnitMark ↔
      (∃ n, .unit n ∈ pieces) ∨ [.char '\\', .char 'u'] <:+: pieces := by
  have hunit : (literal pieces).hasUnitEscape = true ↔ ∃ n, .unit n ∈ pieces := by
    rw [hasUnitEscape, List.any_eq_true]
    constructor
    · rintro ⟨piece, hmem, hpiece⟩
      cases piece with
      | unit n => exact ⟨n, hmem⟩
      | char c => cases hpiece
    · rintro ⟨n, hmem⟩
      exact ⟨_, hmem, rfl⟩
  exact or_congr_left hunit

theorem HasUnitMark.exists_literal {token : Token} (h : token.HasUnitMark) :
    ∃ pieces, token = .literal pieces := by
  cases token with
  | literal pieces => exact ⟨pieces, rfl⟩
  | _ => rcases h with h | h <;> cases h

theorem not_hasUnitMark_of_ofMark? {c : Char} {token : Token} (h : ofMark? c = some token) :
    ¬ token.HasUnitMark := by
  intro hmark
  obtain ⟨pieces, rfl⟩ := hmark.exists_literal
  exact (ofMark?_ne h).2 pieces rfl

theorem not_hasUnitMark_of_ofBare? {word : Text} {token : Token} (h : ofBare? word = some token) :
    ¬ token.HasUnitMark := by
  intro hmark
  obtain ⟨pieces, rfl⟩ := hmark.exists_literal
  simpa using of_ofBare? h

/-- **The start of a `\u` escape is found where tokens have it.** -/
theorem Spells.unitMark_infix_iff {ts : List Token} {t : Text} (h : Spells ts t) :
    unitMark <:+: t ↔ ∃ token ∈ ts, token.HasUnitMark := by
  induction h with
  | nil => simp [unitMark]
  | @blank c ts t space rest ih =>
    have hc : c ≠ '\\' := by
      rintro rfl
      cases space
    rw [unitMark_infix_cons_iff hc]
    exact ih
  | @token token word ts t lexeme rest ih =>
    rw [List.exists_mem_cons_iff, ← ih]
    cases lexeme with
    | @mark c _ found =>
      have hc : c ≠ '\\' := by
        rintro rfl
        cases found
      rw [or_iff_right (not_hasUnitMark_of_ofMark? found)]
      exact unitMark_infix_cons_iff hc t
    | bare found =>
      have hword : '\\' ∉ word := fun hmem =>
        absurd (isSpelling_of_ofBare? found _ hmem) (by decide)
      rw [or_iff_right (not_hasUnitMark_of_ofBare? found)]
      exact unitMark_infix_append_iff hword t
    | literal inside =>
      rw [hasUnitMark_literal_iff, ← inside.unitMark_infix_iff, List.cons_append, List.cons_append,
        unitMark_infix_cons_iff (by decide), List.append_assoc, List.singleton_append]

end Token

namespace Notebook

/-- **A notebook keeps to ASCII** if and only if its document does after a byte order mark, and there
is a string in it with a `\u` escape or with the letter u behind an escaped backslash. -/
theorem asciiOnly_iff {document : Text} {n : Notebook} (h : read document = .ok n) :
    ∃ text tokens, (document = text ∨ document = Layout.markChar :: text) ∧
      Token.ofText? text = some tokens ∧
      (n.layout.asciiOnly = true ↔ Text.isAscii text = true ∧
        ∃ token ∈ tokens, token.hasUnitEscape = true ∨ token.HasLookalike) := by
  obtain ⟨hvalue, -, -, hlayout⟩ := of_read h
  obtain ⟨text, hdocument, hread⟩ := holds_iff.mpr hvalue
  obtain ⟨tokens, htokens, -⟩ := Option.bind_eq_some_iff.mp hread
  have hspells := Token.spells_of_ofText? htokens
  have hbody : document.dropWhile (· = Layout.markChar) = text := by
    have htext : text.dropWhile (· = Layout.markChar) = text := by
      cases text with
      | nil => rfl
      | cons c rest =>
        refine List.dropWhile_cons_of_neg fun hc => hspells.head?_ne_mark ?_
        rw [List.head?_cons, of_decide_eq_true hc]
    rcases hdocument with rfl | rfl
    · exact htext
    · rwa [List.dropWhile_cons_of_pos (by simp)]
  refine ⟨text, tokens, hdocument, htokens, ?_⟩
  have hinfix : Text.contains unitMark text = true ↔ ∃ token ∈ tokens, token.HasUnitMark :=
    Text.contains_iff.trans hspells.unitMark_infix_iff
  rw [hlayout, Layout.detect, hbody, Bool.and_eq_true]
  exact and_congr_right' hinfix

/-- A document with a byte order mark and an escaped letter. -/
def escapedDocument : Text := "\uFEFF\x7b\"cells\":[],\"path\":\"\\u0065\"\x7d".toList

theorem asciiOnly_of_escaped : ∃ n, read escapedDocument = .ok n ∧ n.layout.asciiOnly = true ∧
    ∃ text tokens, (escapedDocument = text ∨ escapedDocument = Layout.markChar :: text) ∧
      Token.ofText? text = some tokens ∧
      (n.layout.asciiOnly = true ↔ Text.isAscii text = true ∧
        ∃ token ∈ tokens, token.hasUnitEscape = true ∨ token.HasLookalike) :=
  ⟨_, rfl, rfl, asciiOnly_iff rfl⟩

/-- A document with the path `C:\users` and no `\u` escape. -/
def usersDocument : Text := "\x7b\"cells\":[],\"path\":\"C:\\\\users\"\x7d".toList

/-- **A letter u behind an escaped backslash is enough** for a notebook to keep to ASCII. -/
theorem asciiOnly_of_users : ∃ n tokens, read usersDocument = .ok n ∧
    Token.ofText? usersDocument = some tokens ∧ n.layout.asciiOnly = true ∧
    ∀ token ∈ tokens, token.hasUnitEscape = false :=
  ⟨_, _, rfl, rfl, rfl, by decide⟩

end Notebook
end NotebookTidy
