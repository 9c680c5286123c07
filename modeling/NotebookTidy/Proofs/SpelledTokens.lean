import NotebookTidy.Layout.Basic
import NotebookTidy.Proofs.LiteralRoundTrip

/-!
# How tokens are spelled

The reading of tokens is a machine.  What it accepts is said here without one, by rules: tokens
stand one after the other with blanks between them (`Token.Spells`), each is a mark, a bare word,
or pieces between quotes (`Token.Lexeme`), and a piece is a character, a short escape, or a unit in
four digits (`Literal.Spells`).

A document whose tokens are read is one that spells them (`Token.spells_of_ofText?`).  So what holds
of all texts that spell tokens is proved by induction on the rules.
-/

namespace NotebookTidy

/-! ## The rules -/

namespace Literal

/-- **How pieces are spelled** between quotes. -/
inductive Spells : List Piece → Text → Prop
  | nil : Spells [] []
  | char {c : Char} {pieces : List Piece} {raw : Text} (quote : c ≠ '"') (backslash : c ≠ '\\')
      (rest : Spells pieces raw) : Spells (.char c :: pieces) (c :: raw)
  | short {c d : Char} {pieces : List Piece} {raw : Text} (escape : shortEscape? c = some d)
      (rest : Spells pieces raw) : Spells (.char d :: pieces) ('\\' :: c :: raw)
  | unit {digits : Text} {n : Nat} {pieces : List Piece} {raw : Text} (four : digits.length = 4)
      (value : Hexadecimal.read? digits = some n) (rest : Spells pieces raw) :
      Spells (.unit n :: pieces) ('\\' :: 'u' :: digits ++ raw)

end Literal

namespace Token

/-- **How a token is spelled.** -/
inductive Lexeme : Token → Text → Prop
  | mark {c : Char} {token : Token} (found : ofMark? c = some token) : Lexeme token [c]
  | bare {word : Text} {token : Token} (found : ofBare? word = some token) : Lexeme token word
  | literal {pieces : List Literal.Piece} {raw : Text} (inside : Literal.Spells pieces raw) :
      Lexeme (.literal pieces) ('"' :: raw ++ ['"'])

/-- **How tokens are spelled**, with blanks between them. -/
inductive Spells : List Token → Text → Prop
  | nil : Spells [] []
  | blank {c : Char} {ts : List Token} {t : Text} (space : isSpace c = true) (rest : Spells ts t) :
      Spells ts (c :: t)
  | token {token : Token} {word : Text} {ts : List Token} {t : Text} (lexeme : Lexeme token word)
      (rest : Spells ts t) : Spells (token :: ts) (word ++ t)

/-! ## The rules read backwards -/

/-- A token is spelled behind blanks, and the others behind it. -/
theorem Spells.of_cons {token : Token} {ts : List Token} {t : Text} (h : Spells (token :: ts) t) :
    ∃ blanks word rest, t = blanks ++ (word ++ rest) ∧ (∀ c ∈ blanks, isSpace c = true) ∧
      Lexeme token word ∧ Spells ts rest := by
  generalize htokens : token :: ts = tokens at h
  induction h with
  | nil => cases htokens
  | @blank c _ _ space _ ih =>
    obtain ⟨blanks, word, rest, rfl, hblanks, hword, hrest⟩ := ih htokens
    exact ⟨c :: blanks, word, rest, rfl, List.forall_mem_cons.mpr ⟨space, hblanks⟩, hword, hrest⟩
  | token lexeme rest =>
    cases htokens
    exact ⟨[], _, _, rfl, List.forall_mem_nil _, lexeme, rest⟩

/-- A bare word is a name or a number. -/
theorem of_ofBare? {word : Text} {token : Token} (h : ofBare? word = some token) :
    token = .null ∨ (∃ value, token = .boolean value) ∨ ∃ n, token = .number n := by
  unfold ofBare? at h
  split at h
  · exact .inl (Option.some.inj h).symm
  · split at h
    · exact .inr (.inl ⟨true, (Option.some.inj h).symm⟩)
    · split at h
      · exact .inr (.inl ⟨false, (Option.some.inj h).symm⟩)
      · obtain ⟨n, -, rfl⟩ := Option.map_eq_some_iff.mp h
        exact .inr (.inr ⟨n, rfl⟩)

/-- Brackets, commas and colons are told apart by their tokens. -/
theorem ofMark?_injective {c d : Char} {token : Token} (hc : ofMark? c = some token)
    (hd : ofMark? d = some token) : c = d := by
  unfold ofMark? at hc
  split at hc
  all_goals cases hc
  all_goals
    unfold ofMark? at hd
    split at hd
    all_goals cases hd
    rfl

/-- No bracket, comma or colon is a bare word or a string. -/
theorem ofMark?_ne {c : Char} {token : Token} (h : ofMark? c = some token) :
    (∀ word, ofBare? word ≠ some token) ∧ ∀ pieces, token ≠ .literal pieces := by
  unfold ofMark? at h
  split at h
  all_goals cases h
  all_goals
    refine ⟨fun word hword => ?_, fun pieces hpieces => ?_⟩
    · simpa using of_ofBare? hword
    · cases hpieces

/-- A bracket, a comma or a colon is spelled as this one character. -/
theorem Lexeme.eq_mark {c : Char} {token : Token} (hc : ofMark? c = some token) {word : Text}
    (h : Lexeme token word) : word = [c] := by
  cases h with
  | mark found => rw [ofMark?_injective found hc]
  | bare found => exact absurd found ((ofMark?_ne hc).1 word)
  | @literal pieces => exact absurd rfl ((ofMark?_ne hc).2 pieces)

/-- A string is spelled as its pieces are, between quotes. -/
theorem Lexeme.eq_literal {pieces : List Literal.Piece} {word : Text}
    (h : Lexeme (.literal pieces) word) :
    ∃ raw, word = '"' :: raw ++ ['"'] ∧ Literal.Spells pieces raw := by
  cases h with
  | mark found => exact absurd rfl ((ofMark?_ne found).2 pieces)
  | bare found => simpa using of_ofBare? found
  | literal inside => exact ⟨_, rfl, inside⟩

/-! ## What the machine reads -/

/-- The text after a place spells these tokens, the one under way being the first of them. -/
def Place.Spells : Place → List Token → Text → Prop
  | .between, ts, t => Token.Spells ts t
  | .bare run, ts, t => ∃ word token more rest, t = word ++ rest ∧ ts = token :: more ∧
      ofBare? (run.reverse ++ word) = some token ∧ Token.Spells more rest
  | .quoted before, ts, t => ∃ raw pieces more rest, t = raw ++ '"' :: rest ∧
      ts = .literal (before.reverse ++ pieces) :: more ∧ Literal.Spells pieces raw ∧
      Token.Spells more rest
  | .escaped before, ts, t => ∃ raw pieces more rest, t = raw ++ '"' :: rest ∧
      ts = .literal (before.reverse ++ pieces) :: more ∧ Literal.Spells pieces ('\\' :: raw) ∧
      Token.Spells more rest
  | .unit before count value, ts, t => ∃ digits n raw pieces more rest,
      t = digits ++ raw ++ '"' :: rest ∧ digits.length = 3 - count + 1 ∧
      digits.foldlM (fun n c => (Hexadecimal.value? c).map (16 * n + ·)) value = some n ∧
      ts = .literal (before.reverse ++ .unit n :: pieces) :: more ∧ Literal.Spells pieces raw ∧
      Token.Spells more rest

/-- A character between tokens that ends a bare word is spelled with what follows it. -/
theorem Place.spells_of_delimiter? {tokens ts : List Token} {c : Char} {r : Reading} {t : Text}
    (h : delimiter? tokens c = some r) (hrest : r.place.Spells ts t) :
    ∃ more, r.tokens.reverse ++ ts = tokens.reverse ++ more ∧ Token.Spells more (c :: t) := by
  unfold delimiter? at h
  split at h
  · next hspace =>
    cases h
    exact ⟨ts, rfl, .blank hspace hrest⟩
  · split at h
    · next hquote =>
      cases h
      obtain ⟨raw, pieces, more, rest, rfl, rfl, hpieces, hmore⟩ := hrest
      refine ⟨_, rfl, ?_⟩
      simpa [hquote] using Spells.token (.literal hpieces) hmore
    · obtain ⟨token, htoken, rfl⟩ := Option.map_eq_some_iff.mp h
      exact ⟨token :: ts, by simp, .token (.mark htoken) hrest⟩

/-- **What is spelled after a character is spelled with the character before it.** -/
theorem Place.spells_of_step {r r' : Reading} {c : Char} {ts : List Token} {t : Text}
    (h : step r c = some r') (hrest : r'.place.Spells ts t) :
    ∃ more, r'.tokens.reverse ++ ts = r.tokens.reverse ++ more ∧ r.place.Spells more (c :: t) := by
  obtain ⟨tokens, place⟩ := r
  cases place with
  | between =>
    simp only [step] at h
    split at h
    · next hdelimiter =>
      cases h
      exact spells_of_delimiter? hdelimiter hrest
    · cases h
      obtain ⟨word, token, more, rest, rfl, rfl, hword, hmore⟩ := hrest
      exact ⟨_, rfl, .token (.bare hword) hmore⟩
  | bare run =>
    simp only [step] at h
    split at h
    · obtain ⟨token, htoken, hdelimiter⟩ := Option.bind_eq_some_iff.mp h
      obtain ⟨more, htokens, hmore⟩ := spells_of_delimiter? hdelimiter hrest
      refine ⟨token :: more, by simp [htokens], ?_⟩
      exact ⟨[], token, more, c :: t, rfl, rfl, by rwa [List.append_nil], hmore⟩
    · cases h
      obtain ⟨word, token, more, rest, rfl, rfl, hword, hmore⟩ := hrest
      rw [List.reverse_cons, List.append_assoc] at hword
      exact ⟨_, rfl, c :: word, token, more, rest, rfl, rfl, hword, hmore⟩
  | quoted before =>
    simp only [step] at h
    split at h
    · next hquote =>
      cases h
      refine ⟨.literal before.reverse :: ts, by simp, ?_⟩
      exact ⟨[], [], ts, t, by rw [hquote]; rfl, by rw [List.append_nil], .nil, hrest⟩
    · next hquote =>
      split at h
      · next hbackslash =>
        cases h
        obtain ⟨raw, pieces, more, rest, rfl, rfl, hpieces, hmore⟩ := hrest
        exact ⟨_, rfl, '\\' :: raw, pieces, more, rest, by rw [hbackslash]; rfl, rfl, hpieces, hmore⟩
      · next hbackslash =>
        split at h
        · cases h
        · cases h
          obtain ⟨raw, pieces, more, rest, rfl, rfl, hpieces, hmore⟩ := hrest
          rw [List.reverse_cons, List.append_assoc]
          exact ⟨_, rfl, c :: raw, .char c :: pieces, more, rest, rfl, rfl,
            .char hquote hbackslash hpieces, hmore⟩
  | escaped before =>
    simp only [step] at h
    split at h
    · next hu =>
      cases h
      obtain ⟨digits, n, raw, pieces, more, rest, rfl, hfour, hvalue, rfl, hpieces, hmore⟩ := hrest
      exact ⟨_, rfl, 'u' :: digits ++ raw, _, more, rest, by rw [hu]; rfl, rfl,
        .unit hfour hvalue hpieces, hmore⟩
    · obtain ⟨d, hd, rfl⟩ := Option.map_eq_some_iff.mp h
      obtain ⟨raw, pieces, more, rest, rfl, rfl, hpieces, hmore⟩ := hrest
      rw [List.reverse_cons, List.append_assoc]
      exact ⟨_, rfl, c :: raw, .char d :: pieces, more, rest, rfl, rfl, .short hd hpieces, hmore⟩
  | unit before count value =>
    simp only [step] at h
    obtain ⟨d, hd, h⟩ := Option.map_eq_some_iff.mp h
    split at h
    · cases h
      obtain ⟨digits, n, raw, pieces, more, rest, rfl, hlength, hvalue, rfl, hpieces, hmore⟩ := hrest
      refine ⟨_, rfl, c :: digits, n, raw, pieces, more, rest, rfl, ?_, ?_, rfl, hpieces, hmore⟩
      · rw [List.length_cons]
        omega
      · simpa [hd] using hvalue
    · cases h
      obtain ⟨raw, pieces, more, rest, rfl, rfl, hpieces, hmore⟩ := hrest
      rw [List.reverse_cons, List.append_assoc]
      refine ⟨_, rfl, [c], 16 * value + d, raw, pieces, more, rest, rfl, ?_, ?_, rfl, hpieces, hmore⟩
      · rw [List.length_singleton]
        omega
      · simp [hd]

/-- What is read from a place on is spelled there. -/
theorem Place.spells_of_foldlM {t : Text} {r : Reading} {ts : List Token}
    (h : (t.foldlM step r).bind finish = some ts) :
    ∃ more, ts = r.tokens.reverse ++ more ∧ r.place.Spells more t := by
  induction t generalizing r with
  | nil =>
    obtain ⟨tokens, place⟩ := r
    change finish _ = some ts at h
    cases place with
    | between =>
      cases h
      exact ⟨[], (List.append_nil _).symm, .nil⟩
    | bare run =>
      obtain ⟨token, htoken, rfl⟩ := Option.map_eq_some_iff.mp h
      refine ⟨[token], List.reverse_cons, ?_⟩
      exact ⟨[], token, [], [], rfl, rfl, by rwa [List.append_nil], .nil⟩
    | quoted before | escaped before | unit before count value => cases h
  | cons c t ih =>
    rw [List.foldlM_cons] at h
    rcases hstep : step r c with - | r' <;> rw [hstep] at h
    · cases h
    · obtain ⟨ts', rfl, hrest⟩ := ih h
      exact spells_of_step hstep hrest

/-- **A document spells the tokens that are read from it.** -/
theorem spells_of_ofText? {t : Text} {ts : List Token} (h : ofText? t = some ts) : Spells ts t := by
  obtain ⟨more, rfl, hmore⟩ := Place.spells_of_foldlM h
  exact hmore

end Token

/-! ## The characters of bare words -/

namespace Number

/-- The character is one that numerals are spelled with. -/
def IsSpelling (c : Char) : Prop := Decimal.isDigit c = true ∨ c ∈ ['+', '-', '.', 'e', 'E']

theorem isSpelling_of_mem_digits {digits : Text} (h : digits.all Decimal.isDigit = true) :
    ∀ c ∈ digits, IsSpelling c :=
  fun c hc => .inl (List.all_eq_true.mp h c hc)

theorem isSpelling_of_exponentOfText? {t : Text} {e : Option Exponent}
    (h : exponentOfText? t = some e) : ∀ c ∈ t, IsSpelling c := by
  cases t with
  | nil => exact nofun
  | cons mark rest =>
    simp only [exponentOfText?, Option.ite_none_right_eq_some, Option.map_eq_some_iff] at h
    obtain ⟨hmark, x, hx, rfl⟩ := h
    simp only [Exponent.ofText?, Option.ite_none_right_eq_some] at hx
    obtain ⟨⟨-, hdigits⟩, -⟩ := hx
    refine List.forall_mem_cons.mpr ⟨.inr (by rcases hmark with rfl | rfl <;> decide), ?_⟩
    split at hdigits
    · exact List.forall_mem_cons.mpr ⟨.inr (by decide), isSpelling_of_mem_digits hdigits⟩
    · exact List.forall_mem_cons.mpr ⟨.inr (by decide), isSpelling_of_mem_digits hdigits⟩
    · exact isSpelling_of_mem_digits hdigits

theorem isSpelling_of_fractionOfText? {t : Text} {parts : Text × Option Exponent}
    (h : fractionOfText? t = some parts) : ∀ c ∈ t, IsSpelling c := by
  unfold fractionOfText? at h
  split at h
  · next rest =>
    simp only [Option.ite_none_left_eq_some, Option.map_eq_some_iff] at h
    obtain ⟨-, e, he, -⟩ := h
    rw [← List.takeWhile_append_dropWhile (p := Decimal.isDigit) (l := rest)]
    refine List.forall_mem_cons.mpr ⟨.inr (by decide), List.forall_mem_append.mpr ⟨?_, ?_⟩⟩
    · exact isSpelling_of_mem_digits List.all_takeWhile
    · exact isSpelling_of_exponentOfText? he
  · obtain ⟨e, he, -⟩ := Option.map_eq_some_iff.mp h
    exact isSpelling_of_exponentOfText? he

theorem isSpelling_of_unsignedOfText? {negative : Bool} {t : Text} {n : Number}
    (h : unsignedOfText? negative t = some n) : ∀ c ∈ t, IsSpelling c := by
  simp only [unsignedOfText?, Option.ite_none_right_eq_some, Option.map_eq_some_iff] at h
  obtain ⟨-, parts, hparts, -⟩ := h
  rw [← List.takeWhile_append_dropWhile (p := Decimal.isDigit) (l := t)]
  refine List.forall_mem_append.mpr ⟨?_, isSpelling_of_fractionOfText? hparts⟩
  exact isSpelling_of_mem_digits List.all_takeWhile

/-- **Numerals are spelled with digits and a few signs.** -/
theorem isSpelling_of_ofText? {t : Text} {n : Number} (h : ofText? t = some n) :
    ∀ c ∈ t, IsSpelling c := by
  unfold ofText? at h
  split at h
  · exact List.forall_mem_cons.mpr ⟨.inr (by decide), isSpelling_of_unsignedOfText? h⟩
  · exact isSpelling_of_unsignedOfText? h

end Number

namespace Token

/-- The names among the bare words. -/
def names : List Text := ["null".toList, "true".toList, "false".toList]

/-- The character is one that bare words are spelled with. -/
def IsSpelling (c : Char) : Prop := Number.IsSpelling c ∨ c ∈ names.flatten

/-- **Bare words are spelled with digits, a few signs and the letters of the names.** -/
theorem isSpelling_of_ofBare? {word : Text} {token : Token} (h : ofBare? word = some token) :
    ∀ c ∈ word, IsSpelling c := by
  have hname (hword : word ∈ names) : ∀ c ∈ word, IsSpelling c :=
    fun c hc => .inr (List.mem_flatten.mpr ⟨word, hword, hc⟩)
  unfold ofBare? at h
  split at h
  · exact hname (by simp [*, names])
  · split at h
    · exact hname (by simp [*, names])
    · split at h
      · exact hname (by simp [*, names])
      · obtain ⟨n, hn, -⟩ := Option.map_eq_some_iff.mp h
        exact fun c hc => .inl (Number.isSpelling_of_ofText? hn c hc)

instance (c : Char) : Decidable (IsSpelling c) := inferInstanceAs (Decidable ((_ ∨ _) ∨ _))

/-- Bare words have no blanks. -/
theorem IsSpelling.not_blank {c : Char} (h : IsSpelling c) : Text.isBlank c = false := by
  rcases h with (hdigit | hsign) | hletter
  · have hrange : 48 ≤ c.toNat ∧ c.toNat ≤ 57 := by
      simpa [Decimal.isDigit, Char.le_def, UInt32.le_iff_toNat_le] using hdigit
    simp only [Text.isBlank, Bool.or_eq_false_iff, Bool.and_eq_false_iff, decide_eq_false_iff_not,
      beq_eq_false_iff_ne]
    omega
  · have hsigns : ['+', '-', '.', 'e', 'E'].all (Text.isBlank · = false) = true := by decide
    exact of_decide_eq_true (List.all_eq_true.mp hsigns c hsign)
  · have hletters : names.flatten.all (Text.isBlank · = false) = true := by decide
    exact of_decide_eq_true (List.all_eq_true.mp hletters c hletter)

/-- Every token has a character that is not blank. -/
theorem Lexeme.exists_not_blank {token : Token} {word : Text} (h : Lexeme token word) :
    ∃ c ∈ word, Text.isBlank c = false := by
  cases h with
  | @mark c _ found =>
    refine ⟨c, List.mem_singleton_self c, ?_⟩
    unfold ofMark? at found
    split at found
    all_goals first | rfl | cases found
  | bare found =>
    cases word with
    | nil => cases found
    | cons c word =>
      have hc := isSpelling_of_ofBare? found c (List.mem_cons_self ..)
      exact ⟨c, List.mem_cons_self .., hc.not_blank⟩
  | literal inside => exact ⟨'"', List.mem_cons_self .., rfl⟩

/-- A text with a token in it is not blank. -/
theorem Spells.exists_not_blank {ts : List Token} {t : Text} (h : Spells ts t) (hts : ts ≠ []) :
    ∃ c ∈ t, Text.isBlank c = false := by
  obtain ⟨token, ts, rfl⟩ := List.exists_cons_of_ne_nil hts
  obtain ⟨blanks, word, rest, rfl, -, hword, -⟩ := h.of_cons
  obtain ⟨c, hmem, hc⟩ := hword.exists_not_blank
  exact ⟨c, List.mem_append_right _ (List.mem_append_left _ hmem), hc⟩

/-- What spells tokens does not start with a byte order mark. -/
theorem Spells.head?_ne_mark {ts : List Token} {t : Text} (h : Spells ts t) :
    t.head? ≠ some Layout.markChar := by
  induction h with
  | nil => nofun
  | blank space rest ih =>
    rintro ⟨⟩
    exact absurd space (by decide)
  | @token token word ts t lexeme rest ih =>
    cases lexeme with
    | mark found =>
      rintro ⟨⟩
      cases found
    | bare found =>
      have hword := isSpelling_of_ofBare? found
      cases word with
      | nil => exact ih
      | cons c word =>
        rintro ⟨⟩
        exact absurd (List.forall_mem_cons.mp hword).1 (by decide)
    | literal inside => nofun

end Token
end NotebookTidy
