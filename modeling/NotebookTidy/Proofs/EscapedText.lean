import Mathlib.Data.List.Basic
import NotebookTidy.Proofs.EditedNotebooks

/-!
# Escaped text

Two hands write what stands between quotes.  One escapes the characters that need it in every
document, and hands on what stands between them, in fragments cut at any place; the other writes
fragments, and escapes in them what is beyond ASCII if the layout asks for that.  Wherever the cuts
are, the text is written character by character (`fragmented_iff`).

So a layout that keeps to ASCII writes nothing else, and one that does not leaves all characters
beyond ASCII as they are.  What either writes is read back as the text it was written of, and the
two write the same exactly if the text is in ASCII itself (`escaped_text`).
-/

namespace NotebookTidy

namespace Literal
variable {ascii : Bool} {c : Char} {t out : Text}

/-! ## Fragments -/

/-- A character that is escaped in every document. -/
def IsSpecial (c : Char) : Prop := c = '"' ∨ c = '\\' ∨ c.toNat < 0x20

/-- A fragment as a layout writes it. -/
def writeFragment (ascii : Bool) (fragment : Text) : Text :=
  if !ascii || Text.isAscii fragment then fragment
  else fragment.flatMap fun c => if c.toNat < 0x80 then [c] else (units c).flatMap unitEscape

/-- **A text and what is written of it, piece by piece**: special characters by themselves, and
fragments of others, of any length. -/
inductive Fragmented (ascii : Bool) : Text → Text → Prop where
  | done : Fragmented ascii [] []
  | special {c : Char} {t out : Text} (h : IsSpecial c) (rest : Fragmented ascii t out) :
    Fragmented ascii (c :: t) (escape false c ++ out)
  | fragment {f t out : Text} (h : ∀ c ∈ f, ¬ IsSpecial c) (rest : Fragmented ascii t out) :
    Fragmented ascii (f ++ t) (writeFragment ascii f ++ out)

theorem IsSpecial.toNat_lt (h : IsSpecial c) : c.toNat < 0x80 := by
  rcases h with rfl | rfl | hcontrol
  · decide
  · decide
  · omega

/-- **What is not special** is written as it is, or by its units. -/
theorem escape_of_not_special (h : ¬ IsSpecial c) :
    escape ascii c =
      if ascii && 0x80 ≤ c.toNat then (units c).flatMap unitEscape else [c] := by
  obtain ⟨hquote, hslash, hcontrol⟩ : c ≠ '"' ∧ c ≠ '\\' ∧ ¬ c.toNat < 0x20 := by
    simpa [IsSpecial, not_or] using h
  have hne {d : Char} (hd : d.toNat < 0x20) : c ≠ d := fun heq => hcontrol (heq ▸ hd)
  simp only [escape, hquote, hslash, hne (d := '\x08') (by decide), hne (d := '\t') (by decide),
    hne (d := '\n') (by decide), hne (d := '\x0c') (by decide), hne (d := '\r') (by decide),
    hcontrol, if_false]

/-- A fragment is written character by character. -/
theorem writeFragment_eq {f : Text} (h : ∀ c ∈ f, ¬ IsSpecial c) :
    writeFragment ascii f = f.flatMap (escape ascii) := by
  rw [writeFragment]
  split
  · next hasis =>
    have hself : f.flatMap (escape ascii) = f.flatMap fun c => [c] := by
      refine List.flatMap_congr fun c hc => ?_
      rw [escape_of_not_special (h c hc), if_neg]
      rcases Bool.or_eq_true_iff.mp hasis with hkeeps | hall
      · rw [(Bool.not_eq_true' _).mp hkeeps]
        exact Bool.false_ne_true
      · have hlt : c.toNat < 0x80 := of_decide_eq_true (List.all_eq_true.mp hall c hc)
        simp [hlt]
    rw [hself, List.flatMap_singleton']
  · next hescapes =>
    obtain ⟨hascii, -⟩ : ascii = true ∧ Text.isAscii f = false := by simpa using hescapes
    refine List.flatMap_congr fun c hc => ?_
    rw [escape_of_not_special (h c hc), hascii]
    by_cases hlt : c.toNat < 0x80
    · simp [hlt, Nat.not_le.mpr hlt]
    · simp [hlt, Nat.not_lt.mp hlt]

/-- **It makes no difference where fragments are cut**: piece by piece, a text is written as
character by character. -/
theorem fragmented_iff : Fragmented ascii t out ↔ out = t.flatMap (escape ascii) := by
  constructor
  · intro h
    induction h with
    | done => rfl
    | special h rest ih => rw [List.flatMap_cons, escape_eq h.toNat_lt ascii false, ih]
    | fragment h rest ih => rw [List.flatMap_append, writeFragment_eq h, ih]
  · rintro rfl
    induction t with
    | nil => exact .done
    | cons c t ih =>
      rw [List.flatMap_cons]
      by_cases hspecial : IsSpecial c
      · rw [escape_eq hspecial.toNat_lt ascii false]
        exact .special hspecial ih
      · have hone : ∀ d ∈ [c], ¬ IsSpecial d := by
          intro d hd
          rwa [List.mem_singleton.mp hd]
        have hfragment := Fragmented.fragment hone ih
        rwa [writeFragment_eq hone, List.flatMap_singleton] at hfragment

/-- **What is written of a text** stands between quotes, piece by piece. -/
theorem write_eq_iff_fragmented : write ascii t = '"' :: out ++ ['"'] ↔ Fragmented ascii t out := by
  rw [write, List.cons_append, List.cons_append, List.cons_inj_right, List.append_cancel_right_eq,
    fragmented_iff, eq_comm]

/-! ## Characters beyond ASCII -/

/-- **A character outside the basic plane** is escaped by the two halves of a pair. -/
theorem escape_pair (h : 0x10000 ≤ c.toNat) :
    ∃ high low, isHighSurrogate high = true ∧ isLowSurrogate low = true ∧ pair high low = c ∧
      escape true c = unitEscape high ++ unitEscape low := by
  obtain ⟨high, low, hunits, hhigh, hlow, hpair⟩ := units_eq_pair h
  refine ⟨high, low, hhigh, hlow, hpair, ?_⟩
  rw [escape_of_not_ascii (by omega), if_pos rfl, hunits]
  simp

/-- **Without need nothing beyond ASCII is escaped**: it is all there, as it is. -/
theorem filter_write (t : Text) :
    (write false t).filter (0x80 ≤ ·.toNat) = t.filter (0x80 ≤ ·.toNat) := by
  have hchar (c : Char) : (escape false c).filter (0x80 ≤ ·.toNat) =
      [c].filter (0x80 ≤ ·.toNat) := by
    by_cases hbeyond : 0x80 ≤ c.toNat
    · rw [escape_of_not_ascii hbeyond, if_neg Bool.false_ne_true]
    · have hlt := Nat.not_le.mp hbeyond
      rw [escape_eq hlt false true, List.filter_cons_of_neg (by simpa using hlt), List.filter_nil]
      refine List.filter_eq_nil_iff.mpr fun d hd => ?_
      have hd' := (mem_escape hd).2.resolve_right fun h => nomatch h.2
      simpa using hd'
  rw [write, List.filter_append, List.filter_cons_of_neg (by decide), List.filter_flatMap,
    List.filter_cons_of_neg (by decide), List.filter_nil, List.append_nil]
  simp only [hchar]
  induction t with
  | nil => rfl
  | cons c t ih => rw [List.flatMap_cons, ih, ← List.filter_append, List.singleton_append]

/-- **Both ways of writing agree** on texts in ASCII and on no others. -/
theorem write_eq_iff : write true t = write false t ↔ ∀ c ∈ t, c.toNat < 0x80 := by
  constructor
  · intro heq c hc
    by_contra hbeyond
    have hkept : c ∈ (write false t).filter (0x80 ≤ ·.toNat) := by
      rw [filter_write]
      exact List.mem_filter.mpr ⟨hc, by simpa using hbeyond⟩
    rw [← heq] at hkept
    exact hbeyond ((mem_write (List.mem_filter.mp hkept).1).2 rfl)
  · exact fun hascii => write_eq hascii true false

/-! ## Texts that are read back -/

/-- **A written text is read back**, wherever a token may stand. -/
theorem read_write (ascii : Bool) (t : Text) :
    ∃ pieces, text? pieces = some t ∧ ∀ ts, (write ascii t).foldlM Token.step ⟨ts, .between⟩ =
      some ⟨.literal pieces :: ts, .between⟩ :=
  ⟨_, text?_flatMap_piecesOf ascii t, Token.foldlM_literal ascii t⟩

end Literal

namespace Layout
variable {l : Layout}

/-- **A text is read back as a key and as a value.** -/
theorem read?_text (hl : l.WellFormed) {t key : Text} (hne : key ≠ t)
    (hkey : key ≠ Number.longFormKey) :
    Json.read? (l.body (.object [(key, .string t), (t, .string key)])) =
      some (.object [(key, .string t), (t, .string key)]) := by
  refine read?_body hl ⟨?_, ?_, trivial, trivial, trivial⟩ (Nat.succ_le_succ (Nat.zero_le _))
  · simpa using hne
  · simpa using hkey

/-- **A document that keeps to ASCII** does so after its byte order mark. -/
theorem toNat_lt_of_mem_body (hl : l.WellFormed) (hascii : l.asciiOnly = true) {v : Json}
    (hv : v.WellFormed) : ∀ c ∈ l.body v, c.toNat < 0x80 := by
  intro c hc
  rcases List.mem_append.mp hc with hc | hc
  · exact (admits_ascii hl hascii).writeValue v hv _ c hc
  · rcases mem_ending hc with rfl | rfl
    · decide
    · decide

end Layout

/-- **What comes of text that is written**, in whatever pieces: it stands between quotes.  Under a
layout that keeps to ASCII there is nothing else between them, and a character outside the basic
plane becomes a pair of units; under one that does not, what is beyond ASCII stays as it is.  Either
is read back as the text, wherever it stands, and they are the same exactly if the text is in ASCII.
So the whole document of a notebook whose layout keeps to ASCII does, whatever its sources have been
set to, but for the mark that it may start with. -/
theorem escaped_text :
    (∀ t : Text,
      (∀ ascii out, Literal.write ascii t = '"' :: out ++ ['"'] ↔ Literal.Fragmented ascii t out) ∧
      (∀ c ∈ Literal.write true t, c.toNat < 0x80) ∧
      (∀ c ∈ t, 0x10000 ≤ c.toNat → ∃ high low, Literal.isHighSurrogate high = true ∧
        Literal.isLowSurrogate low = true ∧ Literal.pair high low = c ∧
          Literal.escape true c = Literal.unitEscape high ++ Literal.unitEscape low) ∧
      (Literal.write false t).filter (0x80 ≤ ·.toNat) = t.filter (0x80 ≤ ·.toNat) ∧
      (∀ ascii, ∃ pieces, Literal.text? pieces = some t ∧
        ∀ ts, (Literal.write ascii t).foldlM Token.step ⟨ts, .between⟩ =
          some ⟨.literal pieces :: ts, .between⟩) ∧
      (∀ l : Layout, l.WellFormed → ∀ key, key ≠ t → key ≠ Number.longFormKey →
        Json.read? (l.body (.object [(key, .string t), (t, .string key)])) =
          some (.object [(key, .string t), (t, .string key)])) ∧
      (Literal.write true t = Literal.write false t ↔ ∀ c ∈ t, c.toNat < 0x80)) ∧
    ∀ document n edits, Notebook.read document = .ok n → n.layout.asciiOnly = true →
      ∃ body, (n.edit edits).write =
          (if n.layout.byteOrderMark then [Layout.markChar] else []) ++ body ∧
        ∀ c ∈ body, c.toNat < 0x80 := by
  refine ⟨fun t => ⟨fun ascii out => Literal.write_eq_iff_fragmented,
    fun c hc => (Literal.mem_write hc).2 rfl, fun c _ => Literal.escape_pair,
    Literal.filter_write t, fun ascii => Literal.read_write ascii t,
    fun l hl key hne hkey => Layout.read?_text hl hne hkey, Literal.write_eq_iff⟩, ?_⟩
  intro document n edits hread hascii
  have hregular := (Notebook.Regular.of_read hread).edit edits
  have hlayout : (n.edit edits).layout = n.layout := Notebook.layout_edit edits n
  refine ⟨_, ?_, Layout.toNat_lt_of_mem_body hregular.layout (hlayout ▸ hascii) hregular.wellFormed⟩
  rw [Notebook.write, Layout.write_eq_mark_body, hlayout]

/-- A character outside the basic plane. -/
def clef : Text := [Char.ofNat 0x1D11E]

/-- A document with a byte order mark and an escape, whose source is set to such a character, and
the character as a key and as a value under a layout with an indent. -/
theorem clef_in_marked_document :
    ∃ n, Notebook.read (Layout.markChar :: Notebook.escaped) = .ok n ∧
      n.layout.asciiOnly = true ∧ n.layout.byteOrderMark = true ∧
      (n.edit [(0, clef)]).write = Layout.markChar ::
        "\x7b\"cells\":[\x7b\"cell_type\":\"code\",\"source\":[\"\\ud834\\udd1e\"]\x7d]\x7d".toList ∧
      (∃ body, (n.edit [(0, clef)]).write = Layout.markChar :: body ∧
        ∀ c ∈ body, c.toNat < 0x80) ∧
      Layout.standard.WellFormed ∧
      Json.read? (Layout.standard.body
          (.object [("k".toList, .string clef), (clef, .string "k".toList)])) =
        some (.object [("k".toList, .string clef), (clef, .string "k".toList)]) := by
  obtain ⟨htext, hdocument⟩ := escaped_text
  obtain ⟨-, -, -, -, -, hkey, -⟩ := htext clef
  have hread : Notebook.read (Layout.markChar :: Notebook.escaped) =
      .ok ⟨[], [.code ⟨[(kindKey, .string codeKind)], .lines,
          ["\u00e9".toList, "=1".toList], []⟩], [],
        { Layout.compact with asciiOnly := true, byteOrderMark := true }⟩ := rfl
  have hlayout : Layout.standard.WellFormed := by
    refine ⟨?_, fun _ => rfl⟩
    rintro indent ⟨⟩ c hc
    exact .inl (List.mem_singleton.mp hc)
  refine ⟨_, hread, rfl, rfl, by decide +kernel, hdocument _ _ _ hread rfl, hlayout, ?_⟩
  exact hkey Layout.standard hlayout "k".toList (by decide) (by decide)

/-- A character outside the basic plane, and one that is escaped in every document. -/
example : Literal.write true [Char.ofNat 0x1D11E, '\n'] = "\"\\ud834\\udd1e\\n\"".toList := by
  decide

end NotebookTidy
