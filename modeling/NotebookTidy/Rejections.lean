import NotebookTidy.Text.Blank

/-!
# Rejected code

Code that could not be parsed is kept as it is and noted down with the formatter's message.  The
notes form a table from code to message, ordered by code; noting the same code again replaces its
message.  That the entries are in order, so that no code has two, is part of the type: two tables
with the same entries are one table, however they came about.
-/

namespace NotebookTidy

namespace Text

/-- Of two different texts one comes first. -/
theorem lt_of_not_lt {a b : Text} (h : ¬ a < b) (hne : b ≠ a) : b < a := by
  rcases List.le_iff_lt_or_eq.mp (List.not_lt.mp h) with h | h
  · exact h
  · exact absurd h hne

end Text

/-- Rejected code with the messages it was rejected with. -/
structure Rejections where
  /-- Code and message, ordered by code. -/
  entries : List (Text × Text)
  /-- Codes increase from entry to entry. -/
  sorted : entries.Pairwise fun a b => a.1 < b.1
deriving Repr, DecidableEq

namespace Rejections

/-- Nothing has been rejected. -/
def empty : Rejections := ⟨[], .nil⟩

instance : Inhabited Rejections := ⟨empty⟩

/-- Entries with one code noted down, in its place in the order. -/
def noteIn (code message : Text) : List (Text × Text) → List (Text × Text)
  | [] => [(code, message)]
  | (c, m) :: rest =>
    if code < c then (code, message) :: (c, m) :: rest
    else if code = c then (code, message) :: rest
    else (c, m) :: noteIn code message rest

/-- Every entry after noting is the new one or an old one. -/
theorem mem_noteIn {code message : Text} {entries : List (Text × Text)} {entry : Text × Text}
    (h : entry ∈ noteIn code message entries) : entry = (code, message) ∨ entry ∈ entries := by
  induction entries with
  | nil => simpa [noteIn] using h
  | cons first rest ih =>
    obtain ⟨c, m⟩ := first
    rw [noteIn] at h
    split at h
    · simpa using h
    · split at h
      · rcases List.mem_cons.mp h with h | h
        · exact Or.inl h
        · exact Or.inr (List.mem_cons_of_mem _ h)
      · rcases List.mem_cons.mp h with h | h
        · exact Or.inr (h ▸ List.mem_cons_self)
        · exact (ih h).imp_right (List.mem_cons_of_mem _)

/-- **Noting code down keeps the entries in order.** -/
theorem sorted_noteIn (code message : Text) {entries : List (Text × Text)}
    (h : entries.Pairwise fun a b => a.1 < b.1) :
    (noteIn code message entries).Pairwise fun a b => a.1 < b.1 := by
  induction entries with
  | nil => simp [noteIn]
  | cons first rest ih =>
    obtain ⟨c, m⟩ := first
    obtain ⟨hfirst, hrest⟩ := List.pairwise_cons.mp h
    rw [noteIn]
    split
    · next hlt =>
      refine List.pairwise_cons.mpr ⟨fun entry hentry => ?_, h⟩
      rcases List.mem_cons.mp hentry with rfl | hentry
      · exact hlt
      · exact List.lt_trans hlt (hfirst entry hentry)
    · split
      · next heq =>
        subst heq
        exact List.pairwise_cons.mpr ⟨hfirst, hrest⟩
      · next hnlt hne =>
        refine List.pairwise_cons.mpr ⟨fun entry hentry => ?_, ih hrest⟩
        rcases mem_noteIn hentry with rfl | hentry
        · exact Text.lt_of_not_lt hnlt (Ne.symm hne)
        · exact hfirst entry hentry

/-- The table with one code noted down; the latest message of a code counts. -/
def note (r : Rejections) (code message : Text) : Rejections :=
  ⟨noteIn code message r.entries, sorted_noteIn code message r.sorted⟩

/-- The message of a code. -/
def get? (r : Rejections) (code : Text) : Option Text :=
  (r.entries.find? fun entry => entry.1 = code).map Prod.snd

/-- How many codes have been noted down. -/
def size (r : Rejections) : Nat := r.entries.length

/-- Entries noted down one after the other. -/
def noteAll (r : Rejections) (entries : List (Text × Text)) : Rejections :=
  entries.foldl (fun r (code, message) => r.note code message) r

/-- The table that entries make when they are noted down one after the other. -/
def ofEntries (entries : List (Text × Text)) : Rejections := empty.noteAll entries

/-- The table with all entries of a second one, whose messages count. -/
def extend (r other : Rejections) : Rejections := r.noteAll other.entries

end Rejections
end NotebookTidy
