import NotebookTidy.Text.Utf8

/-!
# The octets of a text spell it

Every text is encoded in octets that decode to it, so two texts with the same octets are one text.
A character takes one to four octets; `lead` tells their number from the first one, and the ranges
of the second octet (`secondLow`, `secondHigh`) leave out nothing that a character needs.
-/

namespace NotebookTidy
namespace Utf8

/-! ## First octets -/

/-- The least second octet after a first one. -/
def secondLow (b : Nat) : Nat := if b = 0xE0 then 0xA0 else if b = 0xF0 then 0x90 else 0x80

/-- The greatest second octet after a first one. -/
def secondHigh (b : Nat) : Nat := if b = 0xED then 0x9F else if b = 0xF4 then 0x8F else 0xBF

theorem lead_one {b : Nat} (h : b < 0x80) : lead b = .whole (Char.ofNat b) := if_pos h

theorem lead_two {b : Nat} (hl : 0xC2 ≤ b) (hh : b < 0xE0) :
    lead b = .start ⟨1, 1, 0x80, 0xBF, b - 0xC0⟩ := by
  rw [lead, if_neg (by omega), if_neg (by omega), if_pos hh]

theorem lead_three {b : Nat} (hl : 0xE0 ≤ b) (hh : b < 0xF0) :
    lead b = .start ⟨1, 2, secondLow b, secondHigh b, b - 0xE0⟩ := by
  rw [lead, if_neg (by omega), if_neg (by omega), if_neg (by omega)]
  by_cases h0 : b = 0xE0
  · subst h0; rfl
  · by_cases hd : b = 0xED
    · subst hd; rfl
    · rw [if_neg h0, if_neg hd, if_pos hh, secondLow, secondHigh, if_neg h0, if_neg hd,
        if_neg (by omega), if_neg (by omega)]

theorem lead_four {b : Nat} (hl : 0xF0 ≤ b) (hh : b < 0xF5) :
    lead b = .start ⟨1, 3, secondLow b, secondHigh b, b - 0xF0⟩ := by
  rw [lead, if_neg (by omega), if_neg (by omega), if_neg (by omega), if_neg (by omega),
    if_neg (by omega), if_neg (by omega)]
  by_cases h0 : b = 0xF0
  · subst h0; rfl
  · by_cases h4 : b = 0xF4
    · subst h4; rfl
    · rw [if_neg h0, if_pos (by omega), secondLow, secondHigh, if_neg (by omega), if_neg h0,
        if_neg (by omega), if_neg h4]

/-! ## Sequences -/

/-- An octet that may come next, with more to come. -/
theorem piecesFrom_more {p : Partial} {b : UInt8} {n : Nat} (hb : b.toNat = 0x80 + n)
    (hrange : p.low ≤ 0x80 + n ∧ 0x80 + n ≤ p.high) (hm : 1 < p.missing) (rest : Octets) :
    piecesFrom (some p) (b :: rest) =
      piecesFrom (some ⟨p.seen + 1, p.missing - 1, 0x80, 0xBF, 64 * p.value + n⟩) rest := by
  simp [piecesFrom, hb, hrange, Nat.not_le.mpr hm]

/-- An octet that completes a character. -/
theorem piecesFrom_last {p : Partial} {b : UInt8} {n : Nat} (hb : b.toNat = 0x80 + n)
    (hrange : p.low ≤ 0x80 + n ∧ 0x80 + n ≤ p.high) (hm : p.missing = 1) (rest : Octets) :
    piecesFrom (some p) (b :: rest) =
      .char (Char.ofNat (64 * p.value + n)) (p.seen + 1) :: piecesFrom none rest := by
  simp [piecesFrom, hb, hrange, hm]

/-- The first octet of a longer sequence. -/
theorem piecesFrom_lead {b : UInt8} {p : Partial} (h : lead b.toNat = .start p) (rest : Octets) :
    piecesFrom none (b :: rest) = piecesFrom (some p) rest := by
  simp [piecesFrom, h]

theorem toNat_follower (n : Nat) : (UInt8.ofNat (n % 0x40 + 0x80)).toNat = 0x80 + n % 64 := by
  rw [UInt8.toNat_ofNat']
  omega

/-- Two octets are one character. -/
theorem piecesFrom_two {v : Nat} (hlow : 0x7F < v) (hhigh : v ≤ 0x7FF) (rest : Octets) :
    piecesFrom none (UInt8.ofNat (v / 64 % 0x20 + 0xC0) :: UInt8.ofNat (v % 0x40 + 0x80) :: rest) =
      .char (Char.ofNat v) 2 :: piecesFrom none rest := by
  have hb : (UInt8.ofNat (v / 64 % 0x20 + 0xC0)).toNat = 0xC0 + v / 64 := by
    rw [UInt8.toNat_ofNat']
    omega
  rw [piecesFrom_lead (by rw [hb]; exact lead_two (by omega) (by omega)),
    piecesFrom_last (toNat_follower v) (by dsimp only; omega) rfl]
  dsimp only
  rw [show 64 * (0xC0 + v / 64 - 0xC0) + v % 64 = v by omega]

/-- Three octets are one character; the surrogates are left out by the second one. -/
theorem piecesFrom_three {v : Nat} (hlow : 0x7FF < v) (hhigh : v ≤ 0xFFFF)
    (hvalid : v < 0xD800 ∨ 0xDFFF < v) (rest : Octets) :
    piecesFrom none (UInt8.ofNat (v / 4096 % 0x10 + 0xE0) ::
        UInt8.ofNat (v / 64 % 0x40 + 0x80) :: UInt8.ofNat (v % 0x40 + 0x80) :: rest) =
      .char (Char.ofNat v) 3 :: piecesFrom none rest := by
  have hb : (UInt8.ofNat (v / 4096 % 0x10 + 0xE0)).toNat = 0xE0 + v / 4096 := by
    rw [UInt8.toNat_ofNat']
    omega
  have hsecond : secondLow (0xE0 + v / 4096) ≤ 0x80 + v / 64 % 64 ∧
      0x80 + v / 64 % 64 ≤ secondHigh (0xE0 + v / 4096) := by
    unfold secondLow secondHigh
    constructor <;> split <;> (try split) <;> omega
  rw [piecesFrom_lead (by rw [hb]; exact lead_three (by omega) (by omega)),
    piecesFrom_more (toNat_follower (v / 64)) hsecond (by simp),
    piecesFrom_last (toNat_follower v) (by dsimp only; omega) rfl]
  dsimp only
  rw [show 64 * (64 * (0xE0 + v / 4096 - 0xE0) + v / 64 % 64) + v % 64 = v by omega]

/-- Four octets are one character; the second one leaves out what no character is. -/
theorem piecesFrom_four {v : Nat} (hlow : 0xFFFF < v) (hhigh : v < 0x110000) (rest : Octets) :
    piecesFrom none (UInt8.ofNat (v / 262144 % 0x08 + 0xF0) ::
        UInt8.ofNat (v / 4096 % 0x40 + 0x80) :: UInt8.ofNat (v / 64 % 0x40 + 0x80) ::
          UInt8.ofNat (v % 0x40 + 0x80) :: rest) =
      .char (Char.ofNat v) 4 :: piecesFrom none rest := by
  have hb : (UInt8.ofNat (v / 262144 % 0x08 + 0xF0)).toNat = 0xF0 + v / 262144 := by
    rw [UInt8.toNat_ofNat']
    omega
  have hsecond : secondLow (0xF0 + v / 262144) ≤ 0x80 + v / 4096 % 64 ∧
      0x80 + v / 4096 % 64 ≤ secondHigh (0xF0 + v / 262144) := by
    unfold secondLow secondHigh
    constructor <;> split <;> (try split) <;> omega
  rw [piecesFrom_lead (by rw [hb]; exact lead_four (by omega) (by omega)),
    piecesFrom_more (toNat_follower (v / 4096)) hsecond (by simp),
    piecesFrom_more (toNat_follower (v / 64)) (by dsimp only; omega) (by simp),
    piecesFrom_last (toNat_follower v) (by dsimp only; omega) rfl]
  dsimp only
  rw [show 64 * (64 * (64 * (0xF0 + v / 262144 - 0xF0) + v / 4096 % 64) + v / 64 % 64) +
    v % 64 = v by omega]

/-- **The octets of a character are one piece.** -/
theorem piecesFrom_encodeChar (c : Char) (rest : Octets) :
    ∃ size, piecesFrom none (String.utf8EncodeChar c ++ rest) =
      .char c size :: piecesFrom none rest := by
  have hvalid : c.val.toNat < 0xD800 ∨ (0xDFFF < c.val.toNat ∧ c.val.toNat < 0x110000) := c.valid
  have hself : Char.ofNat c.val.toNat = c := Char.ofNat_toNat c
  simp only [String.utf8EncodeChar]
  generalize c.val.toNat = v at hvalid hself
  subst hself
  by_cases h1 : v ≤ 0x7F
  · have hb : (UInt8.ofNat v).toNat = v := by
      rw [UInt8.toNat_ofNat']
      omega
    refine ⟨1, ?_⟩
    rw [if_pos h1, List.singleton_append, piecesFrom, hb, lead_one (by omega)]
  · rw [if_neg h1]
    by_cases h2 : v ≤ 0x7FF
    · rw [if_pos h2]
      exact ⟨2, piecesFrom_two (by omega) h2 rest⟩
    · rw [if_neg h2]
      by_cases h3 : v ≤ 0xFFFF
      · rw [if_pos h3]
        exact ⟨3, piecesFrom_three (by omega) h3 (by omega) rest⟩
      · rw [if_neg h3]
        exact ⟨4, piecesFrom_four (by omega) (by omega) rest⟩

/-! ## Texts -/

theorem textFrom_pieces_encode (t : Text) (position : Nat) :
    textFrom position (pieces (encode t)) = .ok t := by
  induction t generalizing position with
  | nil => rfl
  | cons c t ih =>
    obtain ⟨size, hsize⟩ := piecesFrom_encodeChar c (encode t)
    rw [show encode (c :: t) = String.utf8EncodeChar c ++ encode t from List.flatMap_cons, pieces,
      hsize, textFrom]
    exact congrArg (Except.map (c :: ·)) (ih (position + size))

/-- **The octets of a text decode to it.** -/
theorem decode_encode (t : Text) : decode (encode t) = .ok t := textFrom_pieces_encode t 0

end Utf8
end NotebookTidy
