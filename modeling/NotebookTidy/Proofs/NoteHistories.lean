import Mathlib.Data.List.Induction
import Mathlib.Data.List.Sort
import NotebookTidy.Batch.Basic
import NotebookTidy.Proofs.Notes

/-!
# Tables of rejected code, whatever was done to them

A table of rejected code starts without entries.  Then code is noted down in it, other tables are
taken over into it, and now and then it is emptied; the list of such steps is its **history**.

A history records codes with messages, those of a table that is taken over in the order in which
they stand there, and forgets them when the table is emptied (`recorded`).  Nothing else is needed
to know the table: of each code that is recorded it has one entry, with the message that was
recorded last (`lastMessage?`), and its entries are in order, so the order in which different codes
were recorded makes no difference.
-/

namespace NotebookTidy
namespace Rejections

/-! ## Entries and lookups -/

/-- An entry is found under its code: no other entry has the same. -/
theorem get?_eq_some_iff (r : Rejections) (code message : Text) :
    r.get? code = some message ↔ (code, message) ∈ r.entries := by
  rw [get?, Option.map_eq_some_iff]
  constructor
  · rintro ⟨⟨c, m⟩, hfind, rfl⟩
    have hcode : c = code := by simpa using List.find?_some hfind
    rw [← hcode]
    exact List.mem_of_find?_eq_some hfind
  · intro hmem
    obtain ⟨before, later, hentries⟩ := List.append_of_mem hmem
    have hsorted := r.sorted
    rw [hentries, List.pairwise_append] at hsorted
    refine ⟨(code, message), ?_, rfl⟩
    rw [hentries, List.find?_eq_some_iff_append]
    refine ⟨by simp, before, later, rfl, ?_⟩
    intro entry hentry
    -- an entry that comes before has a smaller code
    have hlt : entry.1 < code := hsorted.2.2 entry hentry _ List.mem_cons_self
    have hne : entry.1 ≠ code := by
      intro heq
      rw [heq] at hlt
      exact List.lt_irrefl _ hlt
    simpa using hne

theorem mem_codes_iff (r : Rejections) (code : Text) :
    code ∈ r.entries.map Prod.fst ↔ ∃ message, r.get? code = some message := by
  constructor
  · intro hmem
    obtain ⟨⟨c, message⟩, hentry, rfl⟩ := List.mem_map.mp hmem
    exact ⟨message, (r.get?_eq_some_iff _ _).mpr hentry⟩
  · rintro ⟨message, hget⟩
    exact List.mem_map.mpr ⟨_, (r.get?_eq_some_iff _ _).mp hget, rfl⟩

/-- Codes are all different. -/
theorem nodup_codes (r : Rejections) : (r.entries.map Prod.fst).Nodup := by
  refine List.pairwise_map.mpr (r.sorted.imp ?_)
  intro a b hlt heq
  rw [heq] at hlt
  exact List.lt_irrefl _ hlt

/-- **A table is known by its entries**, in whatever order they are looked at. -/
theorem eq_of_mem_iff {r r' : Rejections}
    (h : ∀ entry, entry ∈ r.entries ↔ entry ∈ r'.entries) : r = r' := by
  have : Std.Irrefl fun a b : Text × Text => a.1 < b.1 := ⟨fun a => List.lt_irrefl a.1⟩
  have : Std.Antisymm fun a b : Text × Text => a.1 < b.1 :=
    ⟨fun a b hab hba => absurd (List.lt_trans hab hba) (List.lt_irrefl a.1)⟩
  have hentries : r.entries = r'.entries := List.Pairwise.eq_of_mem_iff r.sorted r'.sorted h
  cases r
  cases r'
  cases hentries
  rfl

/-- A table is known by what is found in it. -/
theorem eq_of_get? {r r' : Rejections} (h : ∀ code, r.get? code = r'.get? code) : r = r' := by
  apply eq_of_mem_iff
  rintro ⟨code, message⟩
  rw [← get?_eq_some_iff, ← get?_eq_some_iff, h]

/-! ## The message that counts -/

/-- The message that was recorded last for a code. -/
def lastMessage? (code : Text) : List (Text × Text) → Option Text
  | [] => none
  | (c, message) :: later => (lastMessage? code later).or (if c = code then some message else none)

theorem lastMessage?_append (code : Text) (earlier later : List (Text × Text)) :
    lastMessage? code (earlier ++ later) =
      (lastMessage? code later).or (lastMessage? code earlier) := by
  induction earlier with
  | nil => simp [lastMessage?]
  | cons entry rest ih => rw [List.cons_append, lastMessage?, lastMessage?, ih, Option.or_assoc]

theorem lastMessage?_eq_none_iff {code : Text} {entries : List (Text × Text)} :
    lastMessage? code entries = none ↔ ∀ entry ∈ entries, entry.1 ≠ code := by
  induction entries with
  | nil => simp [lastMessage?]
  | cons entry rest ih => simp [lastMessage?, ih, and_comm]

/-- **The last message of a code** is one that no other message for the code comes after. -/
theorem lastMessage?_eq_some_iff {code message : Text} {entries : List (Text × Text)} :
    lastMessage? code entries = some message ↔
      ∃ before later, entries = before ++ (code, message) :: later ∧
        ∀ entry ∈ later, entry.1 ≠ code := by
  constructor
  · intro h
    induction entries with
    | nil => cases h
    | cons entry rest ih =>
      obtain ⟨c, m⟩ := entry
      cases hrest : lastMessage? code rest with
      | some told =>
        rw [lastMessage?, hrest, Option.some_or] at h
        obtain ⟨before, later, hsplit, hlater⟩ := ih (hrest.trans h)
        exact ⟨(c, m) :: before, later, by rw [hsplit, List.cons_append], hlater⟩
      | none =>
        rw [lastMessage?, hrest, Option.none_or] at h
        split at h
        · next hcode =>
          cases h
          exact ⟨[], rest, by rw [hcode, List.nil_append], lastMessage?_eq_none_iff.mp hrest⟩
        · cases h
  · rintro ⟨before, later, rfl, hlater⟩
    rw [lastMessage?_append, lastMessage?, lastMessage?_eq_none_iff.mpr hlater]
    simp

/-- A table records what it holds. -/
theorem lastMessage?_entries (r : Rejections) (code : Text) :
    lastMessage? code r.entries = r.get? code := by
  cases hlast : lastMessage? code r.entries with
  | none =>
    symm
    rw [Option.eq_none_iff_forall_ne_some]
    intro message hget
    exact lastMessage?_eq_none_iff.mp hlast _ ((r.get?_eq_some_iff _ _).mp hget) rfl
  | some message =>
    obtain ⟨before, later, hentries, -⟩ := lastMessage?_eq_some_iff.mp hlast
    symm
    rw [get?_eq_some_iff, hentries]
    exact List.mem_append_right _ List.mem_cons_self

/-- **Of entries noted down one after the other the last message of each code counts.** -/
theorem get?_noteAll (r : Rejections) (entries : List (Text × Text)) (code : Text) :
    (r.noteAll entries).get? code = (lastMessage? code entries).or (r.get? code) := by
  induction entries generalizing r with
  | nil => rfl
  | cons entry rest ih =>
    obtain ⟨c, m⟩ := entry
    have hnoted : (r.noteAll ((c, m) :: rest)).get? code =
        (lastMessage? code rest).or ((r.note c m).get? code) := ih (r.note c m)
    rw [hnoted, get?_note, lastMessage?, Option.or_assoc]
    by_cases hcode : c = code
    · simp [hcode]
    · simp [hcode, Ne.symm hcode]

/-- **The messages of the table that is taken over count.** -/
theorem get?_extend (r other : Rejections) (code : Text) :
    (r.extend other).get? code = (other.get? code).or (r.get? code) := by
  rw [extend, get?_noteAll, lastMessage?_entries]

theorem extend_assoc (r s t : Rejections) : (r.extend s).extend t = r.extend (s.extend t) := by
  apply eq_of_get?
  intro code
  rw [get?_extend, get?_extend, get?_extend, get?_extend, Option.or_assoc]

theorem extend_empty (r : Rejections) : r.extend empty = r := rfl

theorem empty_extend (r : Rejections) : empty.extend r = r := by
  apply eq_of_get?
  intro code
  rw [get?_extend, get?_empty, Option.or_none]

/-! ## Histories -/

/-- What is done to a table. -/
inductive Step where
  /-- A code is noted down with its message. -/
  | note (code message : Text)
  /-- Another table is taken over. -/
  | extend (other : Rejections)
  /-- The entries are taken out. -/
  | drain

/-- The table after a step. -/
def Step.apply (r : Rejections) : Step → Rejections
  | .note code message => r.note code message
  | .extend other => r.extend other
  | .drain => empty

/-- What is recorded after a step, the latest last. -/
def Step.record (entries : List (Text × Text)) : Step → List (Text × Text)
  | .note code message => entries ++ [(code, message)]
  | .extend other => entries ++ other.entries
  | .drain => []

/-- The table after a history. -/
def after (history : List Step) : Rejections := history.foldl Step.apply empty

/-- Codes and messages that a history has recorded since the table was emptied last. -/
def recorded (history : List Step) : List (Text × Text) := history.foldl Step.record []

/-- The table holds the last message of each code in a record. -/
def Holds (r : Rejections) (entries : List (Text × Text)) : Prop :=
  ∀ code, r.get? code = lastMessage? code entries

/-- A step does to the table what it does to the record. -/
theorem Holds.step {r : Rejections} {entries : List (Text × Text)} (h : r.Holds entries)
    (step : Step) : (step.apply r).Holds (step.record entries) := by
  intro code
  cases step with
  | note c message =>
    have hnote : (r.note c message).get? code = (r.noteAll [(c, message)]).get? code := rfl
    rw [Step.apply, Step.record, hnote, get?_noteAll, lastMessage?_append, h]
  | extend other =>
    rw [Step.apply, Step.record, get?_extend, lastMessage?_append, lastMessage?_entries, h]
  | drain => rfl

theorem Holds.steps {r : Rejections} {entries : List (Text × Text)} (h : r.Holds entries)
    (history : List Step) :
    (history.foldl Step.apply r).Holds (history.foldl Step.record entries) := by
  induction history generalizing r entries with
  | nil => exact h
  | cons step rest ih => exact ih (h.step step)

/-- **After any history the table holds what was recorded.** -/
theorem holds_after (history : List Step) : (after history).Holds (recorded history) :=
  Holds.steps (fun _ => rfl) history

/-- Codes that the table has are the codes that were recorded. -/
theorem mem_codes_after_iff (history : List Step) (code : Text) :
    code ∈ (after history).entries.map Prod.fst ↔ code ∈ (recorded history).map Prod.fst := by
  have hnone : lastMessage? code (recorded history) = none ↔
      code ∉ (recorded history).map Prod.fst := by
    simp only [lastMessage?_eq_none_iff, List.mem_map, not_exists, not_and, ne_eq]
  rw [mem_codes_iff, holds_after, ← Option.ne_none_iff_exists', ne_eq, hnone, not_not]

end Rejections

/-! ## The rejected code of a whole run -/

/-- The message that a file's finding has for a code. -/
def Outcome.message? (code : Text) : Outcome → Option Text
  | .ok finding => finding.rejections.get? code
  | .error _ => none

namespace BatchResult

theorem rejections_snoc (outcomes : List Outcome) (outcome : Outcome) (cancelled : Bool)
    (code : Text) :
    (mk (outcomes ++ [outcome]) cancelled).rejections.get? code =
      (outcome.message? code).or ((mk outcomes cancelled).rejections.get? code) := by
  cases outcome with
  | error error =>
    rw [rejections, rejections, findings, findings, List.filterMap_append, List.foldl_append]
    rfl
  | ok finding =>
    rw [rejections, rejections, findings, findings, List.filterMap_append, List.foldl_append]
    exact Rejections.get?_extend _ _ _

theorem get?_rejections_eq (r : BatchResult) (code : Text) :
    r.rejections.get? code = r.outcomes.reverse.findSome? (Outcome.message? code) := by
  obtain ⟨outcomes, cancelled⟩ := r
  induction outcomes using List.reverseRecOn with
  | nil => rfl
  | append_singleton outcomes outcome ih =>
    rw [rejections_snoc, ih, List.reverse_append, List.reverse_singleton, List.singleton_append,
      List.findSome?_cons]
    cases outcome.message? code <;> rfl

/-- **Of all findings that have a message for a code the last one's counts.** -/
theorem get?_rejections_eq_some_iff (r : BatchResult) (code message : Text) :
    r.rejections.get? code = some message ↔
      ∃ before finding later, r.outcomes = before ++ .ok finding :: later ∧
        finding.rejections.get? code = some message ∧
        ∀ other, .ok other ∈ later → other.rejections.get? code = none := by
  rw [get?_rejections_eq, List.findSome?_eq_some_iff]
  constructor
  · rintro ⟨later, outcome, before, hsplit, hmessage, hlater⟩
    have houtcomes : r.outcomes = before.reverse ++ outcome :: later.reverse := by
      rw [← List.reverse_reverse r.outcomes, hsplit]
      simp
    cases outcome with
    | error error => cases hmessage
    | ok finding =>
      refine ⟨before.reverse, finding, later.reverse, houtcomes, hmessage, ?_⟩
      intro other hother
      exact hlater (.ok other) (List.mem_reverse.mp hother)
  · rintro ⟨before, finding, later, houtcomes, hmessage, hlater⟩
    refine ⟨later.reverse, .ok finding, before.reverse, by rw [houtcomes]; simp, hmessage, ?_⟩
    intro outcome houtcome
    cases outcome with
    | error error => rfl
    | ok other => exact hlater other (List.mem_reverse.mp houtcome)

end BatchResult

namespace Rejections

/-- **A table is what its history has made it.**  Its codes increase from entry to entry.  Each code
that was recorded since the table was emptied last has one entry, with the message that was recorded
last, and there are no others; these messages are what is found in the table, and its size is the
number of its entries.  Two histories after which there are the same entries end in the same table.

To take over tables is associative, and the table without entries adds nothing, on either side.  The
rejected code of a run is taken over from the files that were processed, in their order: of the
messages for a code that of the last such file counts. -/
theorem made_by_history :
    (∀ history : List Step,
      (after history).entries.Pairwise (fun a b => a.1 < b.1) ∧
      (∀ code, ((after history).entries.map Prod.fst).count code =
        if code ∈ (recorded history).map Prod.fst then 1 else 0) ∧
      (∀ code message, (code, message) ∈ (after history).entries ↔
        ∃ before later, recorded history = before ++ (code, message) :: later ∧
          ∀ entry ∈ later, entry.1 ≠ code) ∧
      (∀ code message, (after history).get? code = some message ↔
        (code, message) ∈ (after history).entries) ∧
      (after history).size = (after history).entries.length ∧
      ∀ other : List Step,
        (∀ entry, entry ∈ (after history).entries ↔ entry ∈ (after other).entries) →
          after history = after other) ∧
    (∀ r s t : Rejections, (r.extend s).extend t = r.extend (s.extend t)) ∧
    (∀ r : Rejections, r.extend empty = r ∧ empty.extend r = r) ∧
    ∀ (run : BatchResult) (code message : Text),
      run.rejections.get? code = some message ↔
        ∃ before finding later, run.outcomes = before ++ .ok finding :: later ∧
          finding.rejections.get? code = some message ∧
          ∀ other, .ok other ∈ later → other.rejections.get? code = none := by
  refine ⟨fun history => ?_, extend_assoc, fun r => ⟨extend_empty r, empty_extend r⟩,
    BatchResult.get?_rejections_eq_some_iff⟩
  refine ⟨(after history).sorted, fun code => ?_, fun code message => ?_,
    (after history).get?_eq_some_iff, rfl, fun other => eq_of_mem_iff⟩
  · rw [(nodup_codes _).count]
    simp only [mem_codes_after_iff]
  · rw [← get?_eq_some_iff, holds_after, lastMessage?_eq_some_iff]

/-- Two codes noted down in either order, one of them with another message at first. -/
theorem made_by_either_order :
    after [.note ['a'] ['1'], .note ['b'] ['2']] =
      after [.note ['b'] ['3'], .extend (ofEntries [(['b'], ['2']), (['a'], ['1'])])] := by
  apply (made_by_history.1 _).2.2.2.2.2
  have hentries : (after [.note ['a'] ['1'], .note ['b'] ['2']]).entries =
      (after [.note ['b'] ['3'], .extend (ofEntries [(['b'], ['2']), (['a'], ['1'])])]).entries := by
    decide
  intro entry
  rw [hentries]

end Rejections
end NotebookTidy
