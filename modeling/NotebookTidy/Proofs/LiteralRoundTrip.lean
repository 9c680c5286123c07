import NotebookTidy.Json.Token

/-!
# String literals and numerals are read back as they were written

A text between quotes is written character by character, and the reader of tokens collects it
piece by piece.  `Literal.piecesOf` says which pieces one written character is read as: itself, or
the units of its escape.  Putting pieces together (`Literal.text?`) then gives the text back,
whether or not the layout keeps to ASCII.

A numeral is written as one bare word.  None of its characters ends a bare word, so it reaches
`Number.ofText?` whole, and that undoes `Number.write`.
-/

namespace NotebookTidy

/-! ## Hexadecimal digits -/

namespace Hexadecimal

theorem value?_digit : ∀ n, n < 16 → value? (digit n) = some n := by decide

end Hexadecimal

/-! ## The pieces of a written character -/

namespace Literal

/-- The pieces that a written character is read as. -/
def piecesOf (ascii : Bool) (c : Char) : List Piece :=
  if c = '\x08' ∨ c = '\t' ∨ c = '\n' ∨ c = '\x0c' ∨ c = '\r' then [.char c]
  else if c.toNat < 0x20 ∨ (ascii = true ∧ 0x80 ≤ c.toNat) then (units c).map .unit
  else [.char c]

/-- A unit that is half of no character stands for a character by itself. -/
theorem text?_unit {n : Nat} (h : n < 0xD800 ∨ 0xE000 ≤ n) (rest : List Piece) :
    text? (.unit n :: rest) = (text? rest).map (Char.ofNat n :: ·) := by
  have hhigh : isHighSurrogate n = false := by simp [isHighSurrogate]; omega
  have hlow : isLowSurrogate n = false := by simp [isLowSurrogate]; omega
  cases rest with
  | nil => simp [text?, hhigh, hlow]
  | cons p rest =>
    cases p with
    | char c => simp [text?, hhigh, hlow, Function.comp_def]
    | unit m => simp [text?, hhigh, hlow]

/-- Two halves of a character stand for it. -/
theorem text?_pair {high low : Nat} (hh : isHighSurrogate high = true)
    (hl : isLowSurrogate low = true) (rest : List Piece) :
    text? (.unit high :: .unit low :: rest) = (text? rest).map (pair high low :: ·) := by
  simp [text?, hh, hl]

/-- A character is not half of one. -/
theorem toNat_not_surrogate (c : Char) : c.toNat < 0xD800 ∨ 0xE000 ≤ c.toNat := by
  rcases c.valid with h | ⟨h, _⟩
  · exact Or.inl h
  · exact Or.inr h

theorem toNat_lt (c : Char) : c.toNat < 0x110000 := by
  rcases c.valid with h | ⟨_, h⟩
  · exact Nat.lt_trans h (by decide)
  · exact h

theorem units_lt {c : Char} {u : Nat} (h : u ∈ units c) : u < 65536 := by
  have hc := toNat_lt c
  simp only [units] at h
  split at h
  · rw [List.mem_singleton] at h; omega
  · simp only [List.mem_cons, List.not_mem_nil, or_false] at h; omega

/-- **The units of a character outside the basic plane** are the two halves of it. -/
theorem units_eq_pair {c : Char} (h : 0x10000 ≤ c.toNat) :
    ∃ high low, units c = [high, low] ∧ isHighSurrogate high = true ∧ isLowSurrogate low = true ∧
      pair high low = c := by
  have hc := toNat_lt c
  -- the two halves lie in their ranges and give the number back
  refine ⟨_, _, if_neg (Nat.not_lt.mpr h), ?_, ?_, ?_⟩
  · simp [isHighSurrogate]
    omega
  · simp [isLowSurrogate]
    omega
  · rw [pair, show 0x10000 + 0x400 * (0xD800 + (c.toNat - 0x10000) / 0x400 - 0xD800) +
      (0xDC00 + (c.toNat - 0x10000) % 0x400 - 0xDC00) = c.toNat by omega, Char.ofNat_toNat]

/-- **The units of a character stand for it.** -/
theorem text?_units (c : Char) (rest : List Piece) :
    text? ((units c).map .unit ++ rest) = (text? rest).map (c :: ·) := by
  by_cases hsmall : c.toNat < 0x10000
  · have hunits : units c = [c.toNat] := if_pos hsmall
    rw [hunits, List.map_singleton, List.singleton_append, text?_unit (toNat_not_surrogate c),
      Char.ofNat_toNat]
  · obtain ⟨high, low, hunits, hhigh, hlow, hpair⟩ := units_eq_pair (Nat.not_lt.mp hsmall)
    rw [hunits, List.map_cons, List.map_singleton, List.cons_append, List.singleton_append,
      text?_pair hhigh hlow, hpair]

theorem text?_piecesOf (ascii : Bool) (c : Char) (rest : List Piece) :
    text? (piecesOf ascii c ++ rest) = (text? rest).map (c :: ·) := by
  unfold piecesOf
  split
  · rfl
  · split
    · exact text?_units c rest
    · rfl

/-- **The pieces of a written text stand for the text.** -/
theorem text?_flatMap_piecesOf (ascii : Bool) (t : Text) :
    text? (t.flatMap (piecesOf ascii)) = some t := by
  induction t with
  | nil => rfl
  | cons c t ih => rw [List.flatMap_cons, text?_piecesOf, ih]; rfl

end Literal

/-! ## Reading a literal -/

namespace Token

/-- The escape of a unit is read as the unit. -/
theorem foldlM_unitEscape (ts : List Token) (ps : List Literal.Piece) {n : Nat} (h : n < 65536) :
    (Literal.unitEscape n).foldlM step ⟨ts, .quoted ps⟩ = some ⟨ts, .quoted (.unit n :: ps)⟩ := by
  have hd (k : Nat) : Hexadecimal.value? (Hexadecimal.digit (k % 16)) = some (k % 16) :=
    Hexadecimal.value?_digit _ (Nat.mod_lt _ (by decide))
  -- one step for each of the four digits, which add up to the unit
  simp only [Literal.unitEscape, Hexadecimal.four, List.foldlM_cons, List.foldlM_nil, step, hd]
  simp only [Option.map_some, Option.bind_eq_bind, Option.pure_def]
  simp only [Char.reduceEq, if_false, if_true, Option.bind_some, Nat.zero_add, Nat.reduceLT,
    Nat.reduceAdd, Nat.mul_zero]
  rw [show 16 * (16 * (16 * (n / 4096 % 16) + n / 256 % 16) + n / 16 % 16) + n % 16 = n by omega]

/-- The escapes of units are read as the units. -/
theorem foldlM_unitEscapes (ts : List Token) {us : List Nat} (h : ∀ u ∈ us, u < 65536)
    (ps : List Literal.Piece) :
    (us.flatMap Literal.unitEscape).foldlM step ⟨ts, .quoted ps⟩ =
      some ⟨ts, .quoted ((us.map .unit).reverse ++ ps)⟩ := by
  induction us generalizing ps with
  | nil => rfl
  | cons u us ih =>
    rw [List.flatMap_cons, List.foldlM_append, foldlM_unitEscape ts ps (h u List.mem_cons_self)]
    simpa using ih (fun v hv => h v (List.mem_cons_of_mem u hv)) (.unit u :: ps)

/-- **A written character is read as its pieces.** -/
theorem foldlM_escape (ascii : Bool) (c : Char) (ts : List Token) (ps : List Literal.Piece) :
    (Literal.escape ascii c).foldlM step ⟨ts, .quoted ps⟩ =
      some ⟨ts, .quoted ((Literal.piecesOf ascii c).reverse ++ ps)⟩ := by
  by_cases hshort : c = '"' ∨ c = '\\' ∨ c = '\x08' ∨ c = '\t' ∨ c = '\n' ∨ c = '\x0c' ∨ c = '\r'
  · -- the escapes by one letter are closed terms
    rcases hshort with rfl | rfl | rfl | rfl | rfl | rfl | rfl <;> cases ascii <;> rfl
  · simp only [not_or] at hshort
    obtain ⟨hq, hb, h8, h9, h10, h12, h13⟩ := hshort
    unfold Literal.escape Literal.piecesOf
    simp only [hq, hb, h8, h9, h10, h12, h13, if_false, or_self]
    by_cases hcontrol : c.toNat < 0x20
    · have hunits : Literal.units c = [c.toNat] := by
        unfold Literal.units
        exact if_pos (by omega)
      simp [hcontrol, hunits, foldlM_unitEscape ts ps (show c.toNat < 65536 by omega)]
    · by_cases hascii : ascii = true ∧ 0x80 ≤ c.toNat
      · rw [if_neg hcontrol, if_pos (by simpa using hascii), if_pos (Or.inr hascii)]
        exact foldlM_unitEscapes ts (fun u hu => Literal.units_lt hu) ps
      · rw [if_neg hcontrol, if_neg (by simpa using hascii),
          if_neg (fun h => h.elim hcontrol hascii)]
        simp [step, hq, hb, hcontrol]

theorem foldlM_escapes (ascii : Bool) (t : Text) (ts : List Token) (ps : List Literal.Piece) :
    (t.flatMap (Literal.escape ascii)).foldlM step ⟨ts, .quoted ps⟩ =
      some ⟨ts, .quoted ((t.flatMap (Literal.piecesOf ascii)).reverse ++ ps)⟩ := by
  induction t generalizing ps with
  | nil => rfl
  | cons c t ih =>
    rw [List.flatMap_cons, List.foldlM_append, foldlM_escape, Option.bind_eq_bind, Option.bind_some,
      ih, List.flatMap_cons, List.reverse_append, List.append_assoc]

/-- **A written text is read as one literal.** -/
theorem foldlM_literal (ascii : Bool) (t : Text) (ts : List Token) :
    (Literal.write ascii t).foldlM step ⟨ts, .between⟩ =
      some ⟨.literal (t.flatMap (Literal.piecesOf ascii)) :: ts, .between⟩ := by
  have hopen : step ⟨ts, .between⟩ '"' = some ⟨ts, .quoted []⟩ := rfl
  rw [Literal.write, List.cons_append, List.foldlM_cons, hopen, Option.bind_eq_bind,
    Option.bind_some, List.foldlM_append, foldlM_escapes, Option.bind_eq_bind, Option.bind_some]
  simp [step]

end Token

/-! ## Numerals -/

namespace Exponent

theorem ofText?_signed {e : Exponent} (h : e.WellFormed) :
    ofText? ((if e.negative then '-' else '+') :: e.digits) = some e := by
  obtain ⟨negative, digits⟩ := e
  cases negative <;> simp [ofText?, h]

end Exponent

namespace Number

/-- What is written of an exponent that there may not be. -/
def exponentText : Option Exponent → Text
  | none => []
  | some e => e.write

/-- What is written of the digits after the point. -/
def fractionText (fraction : Text) : Text := if fraction = [] then [] else '.' :: fraction

theorem write_eq (n : Number) :
    n.write = (if n.negative then ['-'] else []) ++
      (n.whole ++ (fractionText n.fraction ++ exponentText n.exponent)) := by
  obtain ⟨negative, whole, fraction, exponent⟩ := n
  cases exponent <;> simp [write, fractionText, exponentText, List.append_assoc]

theorem exponentOfText?_write {e : Option Exponent} (h : ∀ x ∈ e, x.WellFormed) :
    exponentOfText? (exponentText e) = some e := by
  cases e with
  | none => rfl
  | some e =>
    rw [exponentText, Exponent.write, exponentOfText?, if_pos (Or.inl rfl),
      Exponent.ofText?_signed (h e rfl)]
    rfl

/-- No digit is left over in front of an exponent. -/
theorem takeWhile_exponentText (e : Option Exponent) :
    (exponentText e).takeWhile Decimal.isDigit = [] := by
  cases e with
  | none => rfl
  | some e => exact List.takeWhile_cons_of_neg (by decide)

theorem takeWhile_fractionText (fraction : Text) (e : Option Exponent) :
    (fractionText fraction ++ exponentText e).takeWhile Decimal.isDigit = [] := by
  unfold fractionText
  split
  · rw [List.nil_append, takeWhile_exponentText]
  · rw [List.cons_append]; exact List.takeWhile_cons_of_neg (by decide)

/-- A run of digits is cut off in front of what does not start with a digit. -/
theorem takeWhile_digits {digits rest : Text} (h : digits.all Decimal.isDigit = true)
    (hrest : rest.takeWhile Decimal.isDigit = []) :
    (digits ++ rest).takeWhile Decimal.isDigit = digits ∧
      (digits ++ rest).dropWhile Decimal.isDigit = rest := by
  have hall : ∀ c ∈ digits, Decimal.isDigit c = true := List.all_eq_true.mp h
  rw [List.takeWhile_append_of_pos hall, List.dropWhile_append_of_pos hall, hrest, List.append_nil]
  refine ⟨rfl, ?_⟩
  have := List.takeWhile_append_dropWhile (p := Decimal.isDigit) (l := rest)
  rwa [hrest, List.nil_append] at this

theorem fractionOfText?_write {fraction : Text} {e : Option Exponent}
    (hf : fraction.all Decimal.isDigit = true) (he : ∀ x ∈ e, x.WellFormed) :
    fractionOfText? (fractionText fraction ++ exponentText e) = some (fraction, e) := by
  by_cases hnil : fraction = []
  · subst hnil
    rw [fractionText, if_pos rfl, List.nil_append]
    have hexp := exponentOfText?_write he
    cases e with
    | none => rfl
    | some e => exact congrArg (Option.map _) hexp
  · obtain ⟨htake, hdrop⟩ := takeWhile_digits hf (takeWhile_exponentText e)
    simp [fractionText, hnil, fractionOfText?, htake, hdrop, exponentOfText?_write he]

theorem all_isDigit_of_isWhole {digits : Text} (h : IsWhole digits) :
    digits.all Decimal.isDigit = true := by
  rcases h with rfl | ⟨_, _, h⟩
  · decide
  · exact h

/-- **The characters of a numeral**: digits and a few marks. -/
theorem mem_write {n : Number} (h : n.WellFormed) {c : Char} (hc : c ∈ n.write) :
    Decimal.isDigit c = true ∨ c ∈ ['-', '.', 'e', '+'] := by
  obtain ⟨hw, hf, he⟩ := h
  rw [write_eq] at hc
  simp only [List.mem_append] at hc
  rcases hc with hc | hc | hc | hc
  · split at hc
    · rw [List.mem_singleton.mp hc]
      decide
    · cases hc
  · exact Or.inl (List.all_eq_true.mp (all_isDigit_of_isWhole hw) c hc)
  · unfold fractionText at hc
    split at hc
    · cases hc
    · rcases List.mem_cons.mp hc with rfl | hc
      · decide
      · exact Or.inl (List.all_eq_true.mp hf c hc)
  · cases hexp : n.exponent with
    | none =>
      rw [hexp] at hc
      cases hc
    | some e =>
      rw [hexp] at hc
      simp only [exponentText, Exponent.write, List.mem_cons] at hc
      rcases hc with rfl | rfl | hc
      · decide
      · cases e.negative <;> decide
      · exact Or.inl (List.all_eq_true.mp (he e hexp).2 c hc)

theorem ne_nil_of_isWhole {digits : Text} (h : IsWhole digits) : digits ≠ [] := by
  rcases h with rfl | ⟨h, _⟩
  · exact List.cons_ne_nil _ _
  · exact h

theorem unsignedOfText?_write (negative : Bool) {n : Number} (h : n.WellFormed) :
    unsignedOfText? negative (n.whole ++ (fractionText n.fraction ++ exponentText n.exponent)) =
      some { n with negative } := by
  obtain ⟨hw, hf, he⟩ := h
  obtain ⟨htake, hdrop⟩ :=
    takeWhile_digits (all_isDigit_of_isWhole hw) (takeWhile_fractionText n.fraction n.exponent)
  simp only [unsignedOfText?, htake, hdrop, if_pos hw, fractionOfText?_write hf he, Option.map_some]

/-- A whole part does not start with a minus sign. -/
theorem whole_eq_cons {digits : Text} (h : IsWhole digits) :
    ∃ c rest, digits = c :: rest ∧ Decimal.isDigit c = true := by
  cases digits with
  | nil => exact absurd rfl (ne_nil_of_isWhole h)
  | cons c rest =>
    exact ⟨c, rest, rfl, List.all_eq_true.mp (all_isDigit_of_isWhole h) c List.mem_cons_self⟩

/-- **A numeral is read back from its text.** -/
theorem ofText?_write {n : Number} (h : n.WellFormed) : ofText? n.write = some n := by
  have hunsigned (negative : Bool) := unsignedOfText?_write negative h
  obtain ⟨negative, whole, fraction, exponent⟩ := n
  rw [write_eq]
  cases negative with
  | true => exact hunsigned true
  | false =>
    obtain ⟨c, rest, hc, hdigit⟩ := whole_eq_cons h.1
    have hminus : c ≠ '-' := by rintro rfl; exact absurd hdigit (by decide)
    have hread := hunsigned false
    simp only at hc hread
    subst hc
    simp only [Bool.false_eq_true, if_false, List.nil_append, List.cons_append] at hread ⊢
    rw [ofText?, hread]
    intro rest' heq
    exact hminus (List.cons.inj heq).1

end Number

namespace Token

/-- A character that ends no bare word. -/
def IsBare (c : Char) : Prop := isSpace c = false ∧ c ≠ '"' ∧ ofMark? c = none

instance (c : Char) : Decidable (IsBare c) := inferInstanceAs (Decidable (_ ∧ _))

theorem delimiter?_of_isBare {c : Char} (h : IsBare c) (ts : List Token) :
    delimiter? ts c = none := by
  obtain ⟨hspace, hquote, hmark⟩ := h
  simp [delimiter?, hspace, hquote, hmark]

theorem isBare_of_isDigit {c : Char} (h : Decimal.isDigit c = true) : IsBare c := by
  have hne (d : Char) (hd : Decimal.isDigit d = false) : c ≠ d := by
    rintro rfl
    exact absurd (h.symm.trans hd) (by decide)
  refine ⟨?_, hne _ (by decide), ?_⟩
  · simp [isSpace, hne ' ' (by decide), hne '\t' (by decide), hne '\n' (by decide),
      hne '\r' (by decide)]
  · unfold ofMark?
    split
    all_goals first | rfl | exact absurd h (by decide)

/-- Characters of a bare word pile up. -/
theorem foldlM_bare {word : Text} (h : ∀ c ∈ word, IsBare c) (ts : List Token) (run : Text) :
    word.foldlM step ⟨ts, .bare run⟩ = some ⟨ts, .bare (word.reverse ++ run)⟩ := by
  induction word generalizing run with
  | nil => rfl
  | cons c word ih =>
    have hstep : step ⟨ts, .bare run⟩ c = some ⟨ts, .bare (c :: run)⟩ := by
      simp [step, delimiter?_of_isBare (h c List.mem_cons_self)]
    rw [List.foldlM_cons, hstep, Option.bind_eq_bind, Option.bind_some,
      ih fun d hd => h d (List.mem_cons_of_mem c hd)]
    simp

/-- A bare word is one run. -/
theorem foldlM_word {word : Text} (hne : word ≠ []) (h : ∀ c ∈ word, IsBare c) (ts : List Token) :
    word.foldlM step ⟨ts, .between⟩ = some ⟨ts, .bare word.reverse⟩ := by
  cases word with
  | nil => exact absurd rfl hne
  | cons c word =>
    have hstep : step ⟨ts, .between⟩ c = some ⟨ts, .bare [c]⟩ := by
      simp [step, delimiter?_of_isBare (h c List.mem_cons_self)]
    rw [List.foldlM_cons, hstep, Option.bind_eq_bind, Option.bind_some,
      foldlM_bare fun d hd => h d (List.mem_cons_of_mem c hd)]
    simp

/-- Nothing in a numeral ends a bare word. -/
theorem isBare_of_mem_write {n : Number} (h : n.WellFormed) {c : Char} (hc : c ∈ n.write) :
    IsBare c := by
  rcases Number.mem_write h hc with hdigit | hmark
  · exact isBare_of_isDigit hdigit
  · simp only [List.mem_cons, List.not_mem_nil, or_false] at hmark
    rcases hmark with rfl | rfl | rfl | rfl <;> decide

theorem write_ne_nil {n : Number} (h : n.WellFormed) : n.write ≠ [] := by
  obtain ⟨c, rest, hc, _⟩ := Number.whole_eq_cons h.1
  rw [Number.write_eq, hc]
  simp

/-- No numeral is one of the three names. -/
theorem ofBare?_write {n : Number} (h : n.WellFormed) : ofBare? n.write = some (.number n) := by
  have hread := Number.ofText?_write h
  have hne (word : Text) (hword : Number.ofText? word = none) : n.write ≠ word := by
    rintro rfl
    exact absurd (hread.symm.trans hword) (by simp)
  rw [ofBare?, if_neg (hne _ (by decide)), if_neg (hne _ (by decide)), if_neg (hne _ (by decide)),
    hread]
  rfl

end Token
end NotebookTidy
