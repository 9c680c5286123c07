import NotebookTidy.Proofs.TextPieces
import NotebookTidy.Proofs.Utf8RoundTrip

/-!
# Lenient reading, piece by piece

Octets of any kind can stand around a text.  An octet of ASCII belongs to no longer sequence: it
ends the one that is under way, and after it the reading starts afresh
(`Utf8.decodeLossy_append_ascii`).  So what stands up to a line feed, and what stands after it, are
read as if they stood alone.
-/

namespace NotebookTidy
namespace Utf8

/-- The character that a piece is read as. -/
def Piece.letter : Piece → Char
  | .char c _ => c
  | .faulty _ | .cutShort _ => replacement

theorem decodeLossy_eq (octets : Octets) :
    decodeLossy octets = (piecesFrom none octets).map Piece.letter := by
  refine List.map_congr_left fun piece _ => ?_
  cases piece <;> rfl

/-- A text is read as itself, whatever follows it. -/
theorem decodeLossy_encode_append (t : Text) (rest : Octets) :
    decodeLossy (encode t ++ rest) = t ++ decodeLossy rest := by
  simp only [decodeLossy_eq]
  induction t with
  | nil => rfl
  | cons c t ih =>
    obtain ⟨size, hsize⟩ := piecesFrom_encodeChar c (encode t ++ rest)
    have hencode : encode (c :: t) ++ rest = String.utf8EncodeChar c ++ (encode t ++ rest) := by
      rw [← List.append_assoc]
      rfl
    rw [hencode, hsize, List.map_cons, ih]
    rfl

/-- Octets that continue a sequence are beyond ASCII. -/
theorem low_of_lead {b : Nat} {p : Partial} (h : lead b = .start p) : 0x80 ≤ p.low := by
  unfold lead at h
  repeat' split at h
  all_goals cases h
  all_goals dsimp only
  all_goals omega

/-- An octet that cannot continue a sequence ends it, and is looked at afresh. -/
theorem piecesFrom_some {p : Partial} {b : UInt8} (h : ¬ (p.low ≤ b.toNat ∧ b.toNat ≤ p.high))
    (rest : Octets) :
    piecesFrom (some p) (b :: rest) = .faulty p.seen :: piecesFrom none (b :: rest) :=
  if_neg h

/-- **After an octet of ASCII the reading starts afresh**, wherever it stood. -/
theorem map_letter_piecesFrom {p : Option Partial} (hp : ∀ q ∈ p, 0x80 ≤ q.low) {b : UInt8}
    (hb : b.toNat < 0x80) (before rest : Octets) :
    (piecesFrom p (before ++ b :: rest)).map Piece.letter =
      (piecesFrom p before).map Piece.letter ++
        Char.ofNat b.toNat :: (piecesFrom none rest).map Piece.letter := by
  induction before generalizing p with
  | nil =>
    have hafresh : piecesFrom none (b :: rest) =
        .char (Char.ofNat b.toNat) 1 :: piecesFrom none rest := by
      rw [piecesFrom, lead_one hb]
    cases p with
    | none =>
      rw [List.nil_append, hafresh]
      rfl
    | some q =>
      have hlow := hp q rfl
      rw [List.nil_append, piecesFrom_some (by omega), hafresh]
      rfl
  | cons a before ih =>
    have hnone : (piecesFrom none (a :: (before ++ b :: rest))).map Piece.letter =
        (piecesFrom none (a :: before)).map Piece.letter ++
          Char.ofNat b.toNat :: (piecesFrom none rest).map Piece.letter := by
      rw [piecesFrom, piecesFrom]
      cases hlead : lead a.toNat with
      | whole c => exact congrArg (c :: ·) (ih (by rintro _ ⟨⟩))
      | start q => exact ih (by rintro _ ⟨⟩; exact low_of_lead hlead)
      | faulty => exact congrArg (replacement :: ·) (ih (by rintro _ ⟨⟩))
    cases p with
    | none => exact hnone
    | some q =>
      by_cases hrange : q.low ≤ a.toNat ∧ a.toNat ≤ q.high
      · rw [List.cons_append, piecesFrom, piecesFrom, if_pos hrange, if_pos hrange]
        split
        · exact congrArg (_ :: ·) (ih (by rintro _ ⟨⟩))
        · exact ih (by rintro _ ⟨⟩; exact Nat.le_refl _)
      · rw [List.cons_append, piecesFrom_some hrange, piecesFrom_some hrange]
        exact congrArg (replacement :: ·) hnone

/-- **An octet of ASCII is read as its character**, between octets of any kind. -/
theorem decodeLossy_append_ascii {b : UInt8} (hb : b.toNat < 0x80) (before rest : Octets) :
    decodeLossy (before ++ b :: rest) =
      decodeLossy before ++ Char.ofNat b.toNat :: decodeLossy rest := by
  simp only [decodeLossy_eq]
  exact map_letter_piecesFrom (p := none) nofun hb before rest

/-! ## Lines -/

/-- The octets end with a line feed, if there are any. -/
def EndsLine (octets : Octets) : Prop := ∀ b ∈ octets.getLast?, b = 0x0A

/-- What stands behind a line: nothing, or a line end and more. -/
inductive FollowsLine : Octets → Prop
  | nothing : FollowsLine []
  | feed (rest : Octets) : FollowsLine (0x0A :: rest)
  | returnFeed (rest : Octets) : FollowsLine (0x0D :: 0x0A :: rest)

theorem decodeLossy_append {before : Octets} (h : EndsLine before) (rest : Octets) :
    decodeLossy (before ++ rest) = decodeLossy before ++ decodeLossy rest ∧
      Fragment.Closed (decodeLossy before) := by
  rcases List.eq_nil_or_concat' before with rfl | ⟨front, b, rfl⟩
  · exact ⟨rfl, Fragment.closed_nil⟩
  · obtain rfl : b = 0x0A := h b (by simp)
    have hfeed (rest : Octets) : decodeLossy (front ++ 0x0A :: rest) =
        decodeLossy front ++ '\n' :: decodeLossy rest :=
      decodeLossy_append_ascii (by decide) front rest
    rw [List.append_assoc, List.singleton_append, hfeed, hfeed []]
    exact ⟨by rw [List.append_assoc]; rfl, Fragment.closed_line _⟩

theorem FollowsLine.decoded {after : Octets} (h : FollowsLine after) :
    decodeLossy after = [] ∨ (∃ t, decodeLossy after = '\n' :: t) ∨
      ∃ t, decodeLossy after = '\r' :: '\n' :: t := by
  have hfeed (rest : Octets) :
      decodeLossy (0x0A :: rest) = '\n' :: decodeLossy rest :=
    decodeLossy_append_ascii (by decide) [] rest
  cases h with
  | nothing => exact .inl rfl
  | feed rest => exact .inr (.inl ⟨_, hfeed rest⟩)
  | returnFeed rest =>
    have hreturn : decodeLossy (0x0D :: 0x0A :: rest) =
        '\r' :: decodeLossy (0x0A :: rest) :=
      decodeLossy_append_ascii (by decide) [] (0x0A :: rest)
    exact .inr (.inr ⟨_, hreturn.trans (congrArg _ (hfeed rest))⟩)

end Utf8
end NotebookTidy
