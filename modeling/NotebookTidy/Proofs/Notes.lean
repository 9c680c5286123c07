import NotebookTidy.Proofs.CalmRuns

/-!
# Notes that only grow

The notes of a table are known by looking codes up: after noting one down its message is the new
one, and all others have the messages that they had (`Rejections.get?_note`).

With a formatter that answers by a function, a code is refused with the same message whenever it is
refused.  So notes are never overwritten by others: a table whose notes are the formatter's answers
(`Rejections.Tells`) only grows while code is formatted (`Rejections.Within`, `Task.AddsTo`).
-/

namespace NotebookTidy

namespace Rejections

/-! ## Looking codes up -/

/-- What is found of a code among entries, after one has been noted down. -/
theorem find?_noteIn (code message other : Text) (entries : List (Text × Text)) :
    ((noteIn code message entries).find? fun entry => entry.1 = other).map Prod.snd =
      if other = code then some message
      else (entries.find? fun entry => entry.1 = other).map Prod.snd := by
  induction entries with
  | nil =>
    by_cases h : other = code
    · simp [noteIn, h]
    · simp [noteIn, h, Ne.symm h]
  | cons entry rest ih =>
    obtain ⟨c, m⟩ := entry
    rw [noteIn]
    split
    · by_cases h : other = code
      · simp [h]
      · simp [h, Ne.symm h]
    · split
      · next heq =>
        -- the entry of the same code gives way
        subst heq
        by_cases h : other = code
        · simp [h]
        · simp [h, Ne.symm h]
      · next hne =>
        by_cases hc : c = other
        · have hother : ¬ other = code := fun h => hne (by rw [hc, h])
          simp [hc, hother]
        · simpa [hc] using ih

/-- **The latest message of a code counts**, and noting it down changes no other. -/
theorem get?_note (r : Rejections) (code message other : Text) :
    (r.note code message).get? other = if other = code then some message else r.get? other :=
  find?_noteIn code message other r.entries

theorem get?_empty (code : Text) : empty.get? code = none := rfl

/-! ## Tables that grow -/

/-- **Every note of the first table stands in the second**, with the same message. -/
def Within (r r' : Rejections) : Prop :=
  ∀ code message, r.get? code = some message → r'.get? code = some message

theorem Within.refl (r : Rejections) : r.Within r := fun _ _ h => h

theorem Within.trans {r r' r'' : Rejections} (h : r.Within r') (h' : r'.Within r'') :
    r.Within r'' :=
  fun code message hnote => h' code message (h code message hnote)

/-- **The notes are answers** in a mode: each code was refused with the message noted for it. -/
def Tells (answer : Call → Formatted) (mode : Mode) (r : Rejections) : Prop :=
  ∀ code message, r.get? code = some message →
    ∃ line, answer ⟨mode, code⟩ = .error (.cannotParse message line)

variable {answer : Call → Formatted} {mode : Mode} {r : Rejections}

theorem tells_empty : empty.Tells answer mode := by
  intro code message hnote
  rw [get?_empty] at hnote
  cases hnote

/-- Noting an answer down leaves every other note as it was, and the note of the same code too. -/
theorem Tells.note (h : r.Tells answer mode) {code message : Text} {line : Option Text}
    (hanswer : answer ⟨mode, code⟩ = .error (.cannotParse message line)) :
    (r.note code message).Tells answer mode ∧ r.Within (r.note code message) := by
  constructor
  · intro other told hnote
    rw [get?_note] at hnote
    split at hnote
    · next hother =>
      cases hnote
      exact ⟨line, hother ▸ hanswer⟩
    · exact h other told hnote
  · intro other told hnote
    rw [get?_note]
    split
    · next hother =>
      -- it was noted down before, for the same answer
      obtain ⟨line', hbefore⟩ := h other told hnote
      rw [hother, hanswer] at hbefore
      cases hbefore
      rfl
    · exact hnote

end Rejections

/-! ## Tasks that add notes -/

section Tasks
variable {α β : Type} {answer : Call → Formatted} {mode : Mode} {before between : Rejections}

/-- **The task ends, and has added answers to the notes that there were.** -/
def Task.AddsTo (answer : Call → Formatted) (mode : Mode) (before : Rejections)
    (t : Task (Except FormatterError α × Rejections)) : Prop :=
  ∃ result after, Task.Yields answer t (result, after) ∧ after.Tells answer mode ∧
    before.Within after

namespace Task.AddsTo

theorem kept (h : before.Tells answer mode) (result : Except FormatterError α) :
    AddsTo answer mode before (.done (result, before)) :=
  ⟨result, before, .done _, h, .refl before⟩

theorem noted (h : before.Tells answer mode) {code message : Text} {line : Option Text}
    (hanswer : answer ⟨mode, code⟩ = .error (.cannotParse message line))
    (result : Except FormatterError α) :
    AddsTo answer mode before (.done (result, before.note code message)) := by
  obtain ⟨htells, hwithin⟩ := h.note hanswer
  exact ⟨result, _, .done _, htells, hwithin⟩

theorem ask {call : Call} {next : Formatted → Task (Except FormatterError α × Rejections)}
    (h : AddsTo answer mode before (next (answer call))) :
    AddsTo answer mode before (.ask call next) := by
  obtain ⟨result, after, hyields, htells, hwithin⟩ := h
  exact ⟨result, after, .ask hyields, htells, hwithin⟩

theorem bind {t : Task (Except FormatterError β × Rejections)}
    {f : Except FormatterError β × Rejections → Task (Except FormatterError α × Rejections)}
    (ht : AddsTo answer mode before t)
    (hf : ∀ result between, between.Tells answer mode →
      AddsTo answer mode between (f (result, between))) :
    AddsTo answer mode before (t.bind f) := by
  obtain ⟨result, between, hfirst, hbetween, hwithin⟩ := ht
  obtain ⟨last, after, hsecond, hafter, hwithin'⟩ := hf result between hbetween
  exact ⟨last, after, .bind hfirst hsecond, hafter, hwithin.trans hwithin'⟩

end Task.AddsTo

/-- The task adds answers to notes that are answers. -/
def Noting.Adds (answer : Call → Formatted) (mode : Mode) (x : Noting α) : Prop :=
  ∀ before : Rejections, before.Tells answer mode →
    Task.AddsTo answer mode before (x.start before)

namespace Noting.Adds

theorem pure (a : α) : Adds answer mode (pure a) := fun _ h => .kept h (.ok a)

theorem bind {x : Noting β} {f : β → Noting α} (hx : Adds answer mode x)
    (hf : ∀ b, Adds answer mode (f b)) : Adds answer mode (x >>= f) := by
  intro before hbefore
  rw [start_bind]
  refine .bind (hx before hbefore) fun result between hbetween => ?_
  cases result with
  | error error => exact .kept hbetween _
  | ok b => exact hf b between hbetween

end Noting.Adds

variable (answer mode)

theorem Noting.adds_send (code : Text) {instead : Option Text → Option (Noting Text)}
    (h : ∀ line other, instead line = some other → other.Adds answer mode) :
    (send mode code instead).Adds answer mode := by
  intro before hbefore
  rw [start_send]
  apply Task.AddsTo.ask
  cases hanswer : answer ⟨mode, code⟩ with
  | ok formatted => exact .kept hbefore _
  | error error =>
    cases error with
    | cannotParse message line =>
      cases hinstead : instead line with
      | none =>
        simp only [hinstead]
        exact .noted hbefore hanswer _
      | some other =>
        simp only [hinstead]
        exact h line other hinstead before hbefore
    | _ => exact .kept hbefore _

theorem Noting.closed_adds : Closed mode fun x => x.Adds answer mode where
  pure := .pure
  bind := .bind
  send code _ := adds_send answer mode code

/-- **Formatting a source ends, and adds answers to the notes.** -/
theorem adds_formatSource (text : Text) : (formatSource mode text).Adds answer mode :=
  (Noting.closed_adds answer mode).formatSource text

end Tasks
end NotebookTidy
