import NotebookTidy.Proofs.ReadValues

/-!
# The first key of a document's value

The first key of an object is the first that its tokens have: a key that comes again keeps its
place, and no key is ever put before another.  So an object that is not empty has tokens that start
with its opening bracket, its first key and a colon (`Json.exists_tokens_of_firstKey?`).

While tokens are read, the outermost array or object is at the bottom of the stack, or in what may
come next if the stack is empty.  Wherever it is, its first key is known from its third token on,
and `Building.Begins` is the invariant that says so: there is a rule for each way in which the stack
can change, and each token keeps it (`Building.Begins.step`).
-/

namespace NotebookTidy

namespace Members

/-- The first key, if there is a member. -/
def firstKey? (members : Members) : Option Text := (members.map Prod.fst).head?

/-- Setting a key makes it the first only if there was none. -/
theorem firstKey?_set (key : Text) (value : Json) (members : Members) :
    firstKey? (set key value members) = (firstKey? members).or (some key) := by
  rw [firstKey?, keys_set]
  split
  · next hmem =>
    obtain ⟨first, rest, hkeys⟩ := List.exists_cons_of_ne_nil (List.ne_nil_of_mem hmem)
    rw [firstKey?, hkeys]
    rfl
  · rw [List.head?_append]
    rfl

end Members

namespace Json

/-- The first key of an object that has one. -/
def firstKey? : Json → Option Text
  | .object members => Members.firstKey? members
  | _ => none

/-- The first key of an open object, if it is an object that is open. -/
def Frame.firstKey? : Frame → Option Text
  | .array _ => none
  | .object members key => (Members.firstKey? members).or (some key)

/-- The value under way outside all arrays and objects that are open will have this first key, or
none. -/
def Expectation.Begins (first : Option Text) : Expectation → Prop
  | .value => False
  | .firstItem => first = none
  | .firstKey => False
  | .key members => Members.firstKey? members = first ∧ first ≠ none
  | .colon members name => (Members.firstKey? members).or (some name) = first
  | .numeralColon => first = none
  | .numeral => first = none
  | .numeralEnd _ => first = none
  | .complete v => v.firstKey? = first

namespace Building

/-- **The outermost value will have this first key**, or none: this is known of the array or object
at the bottom of the stack, or else of what may come next. -/
def Begins (first : Option Text) (b : Building) : Prop :=
  match b.stack.getLast? with
  | none => b.next.Begins first
  | some outermost => outermost.firstKey? = first

namespace Begins
variable {first : Option Text} {stack : List Frame} {frame frame' : Frame}
  {next next' : Expectation}

/-- The stack stays as it is. -/
theorem keep (h : Begins first ⟨stack, next⟩) (hnext : next.Begins first → next'.Begins first) :
    Begins first ⟨stack, next'⟩ := by
  unfold Begins at h ⊢
  cases hlast : stack.getLast? with
  | none => exact hnext (by simpa [hlast] using h)
  | some outermost => simpa [hlast] using h

/-- An array or object is opened. -/
theorem push (h : Begins first ⟨stack, next⟩)
    (hframe : next.Begins first → frame.firstKey? = first) :
    Begins first ⟨frame :: stack, next'⟩ := by
  unfold Begins at h ⊢
  rw [List.getLast?_cons]
  cases hlast : stack.getLast? with
  | none => exact hframe (by simpa [hlast] using h)
  | some outermost => simpa [hlast] using h

/-- The innermost array or object is closed, or goes on with its next member. -/
theorem pop (h : Begins first ⟨frame :: stack, next⟩)
    (hnext : frame.firstKey? = first → next'.Begins first) : Begins first ⟨stack, next'⟩ := by
  unfold Begins at h ⊢
  rw [List.getLast?_cons] at h
  cases hlast : stack.getLast? with
  | none => exact hnext (by simpa [hlast] using h)
  | some outermost => simpa [hlast] using h

/-- The innermost array has got one item more. -/
theorem replace (h : Begins first ⟨frame :: stack, next⟩)
    (hframe : frame'.firstKey? = frame.firstKey?) : Begins first ⟨frame' :: stack, next'⟩ := by
  unfold Begins at h ⊢
  rw [List.getLast?_cons] at h ⊢
  cases hlast : stack.getLast? with
  | none =>
    rw [hlast] at h
    exact hframe.trans h
  | some outermost => simpa [hlast] using h

end Begins

variable {first : Option Text}

/-- The start of a value leaves the stack as it is. -/
theorem stack_of_start {stack : List Frame} {token : Token} {b : Building}
    (h : start stack token = some b) : b.stack = stack := by
  cases token with
  | null | boolean value | number n => exact Option.some.inj h ▸ rfl
  | literal pieces =>
    obtain ⟨text, -, rfl⟩ := Option.map_eq_some_iff.mp h
    rfl
  | openArray | openObject =>
    rw [start] at h
    split at h
    · exact Option.some.inj h ▸ rfl
    · cases h
  | closeArray | closeObject | comma | colon => cases h

/-- The start of a value in an array or object. -/
theorem Begins.start {stack : List Frame} (h : Begins first ⟨stack, .value⟩) {token : Token}
    {b : Building} (hb : Building.start stack token = some b) : b.Begins first := by
  obtain ⟨stack', next⟩ := b
  obtain rfl : stack' = stack := stack_of_start hb
  exact h.keep False.elim

/-- The end of a value in an array or object. -/
theorem Begins.close {stack : List Frame} {value : Json}
    (h : Begins first ⟨stack, .complete value⟩) {token : Token} {b : Building}
    (hb : Building.close value stack token = some b) : b.Begins first := by
  unfold Building.close at hb
  split at hb
  · exact Option.some.inj hb ▸ h.replace rfl
  · exact Option.some.inj hb ▸ h.pop id
  · next members key stack =>
    refine Option.some.inj hb ▸ h.pop fun hfirst => ?_
    rw [Expectation.Begins, Members.firstKey?_set, ← hfirst, Frame.firstKey?]
    refine ⟨rfl, ?_⟩
    rw [Option.or_some]
    exact Option.some_ne_none _
  · next members key stack =>
    refine Option.some.inj hb ▸ h.pop fun hfirst => ?_
    rw [Expectation.Begins, Json.firstKey?, Members.firstKey?_set, ← hfirst, Frame.firstKey?]
  · cases hb

/-- **Every token keeps the first key of the outermost value.** -/
theorem Begins.step {b b' : Building} (h : b.Begins first) {token : Token}
    (hb : b.step token = some b') : b'.Begins first := by
  obtain ⟨stack, next⟩ := b
  cases next with
  | value => exact h.start hb
  | firstItem =>
    simp only [Building.step] at hb
    split at hb
    · exact Option.some.inj hb ▸ h.keep Eq.symm
    · have hitems : Begins first ⟨.array [] :: stack, .value⟩ := h.push Eq.symm
      exact hitems.start hb
  | firstKey =>
    simp only [Building.step] at hb
    split at hb
    · exact Option.some.inj hb ▸ h.keep False.elim
    · cases token with
      | literal pieces =>
        obtain ⟨key, -, rfl⟩ := Option.map_eq_some_iff.mp hb
        exact h.keep False.elim
      | _ => cases hb
  | key members =>
    cases token with
    | literal pieces =>
      obtain ⟨key, -, rfl⟩ := Option.map_eq_some_iff.mp hb
      refine h.keep fun hfirst => ?_
      -- there is a key already, so the new one is not the first
      obtain ⟨hmembers, hsome⟩ := hfirst
      rw [Expectation.Begins, hmembers]
      cases first with
      | none => exact absurd rfl hsome
      | some key => rfl
    | _ => cases hb
  | colon members key =>
    simp only [Building.step] at hb
    split at hb
    · exact Option.some.inj hb ▸ h.push id
    · cases hb
  | numeralColon =>
    simp only [Building.step] at hb
    split at hb
    · exact Option.some.inj hb ▸ h.keep id
    · cases hb
  | numeral =>
    cases token with
    | literal pieces =>
      obtain ⟨n, -, rfl⟩ := Option.map_eq_some_iff.mp hb
      exact h.keep id
    | _ => cases hb
  | numeralEnd n =>
    simp only [Building.step] at hb
    split at hb
    · exact Option.some.inj hb ▸ h.keep Eq.symm
    · cases hb
  | complete value => exact h.close hb

/-- **So does a run over many tokens**, and what it is finished with has this first key. -/
theorem Begins.firstKey?_eq {tokens : List Token} {b : Building} (h : b.Begins first)
    {value : Json} (hrun : (tokens.foldlM Building.step b).bind finish = some value) :
    value.firstKey? = first := by
  induction tokens generalizing b with
  | nil =>
    obtain ⟨stack, next⟩ := b
    change finish _ = some value at hrun
    unfold finish at hrun
    split at hrun
    · next hstack hnext =>
      -- the stack is empty, so what is known is known of the finished value
      cases hrun
      simp only at hstack hnext
      subst hstack hnext
      exact h
    · cases hrun
  | cons token tokens ih =>
    rw [List.foldlM_cons] at hrun
    rcases hstep : Building.step b token with - | b' <;> rw [hstep] at hrun
    · cases hrun
    · exact ih (h.step hstep) hrun

/-- A run that is not finished yet goes on with a step. -/
theorem exists_step {tokens : List Token} {b : Building} {value : Json} (hopen : b.finish = none)
    (hrun : (tokens.foldlM Building.step b).bind finish = some value) :
    ∃ token rest b', tokens = token :: rest ∧ b.step token = some b' ∧
      (rest.foldlM Building.step b').bind finish = some value := by
  cases tokens with
  | nil =>
    rw [show ([].foldlM Building.step b).bind finish = b.finish from rfl, hopen] at hrun
    cases hrun
  | cons token rest =>
    rw [List.foldlM_cons] at hrun
    rcases hstep : b.step token with - | b' <;> rw [hstep] at hrun
    · cases hrun
    · exact ⟨token, rest, b', rfl, hstep, hrun⟩

/-- The first token opens an object, or there will be no first key. -/
theorem opens_or_begins_none {token : Token} {b : Building}
    (h : Building.step ⟨[], .value⟩ token = some b) :
    (token = .openObject ∧ b = ⟨[], .firstKey⟩) ∨ b.Begins none := by
  change Building.start [] token = some b at h
  cases token with
  | null | boolean value | number n | openArray =>
    cases h
    exact .inr rfl
  | literal pieces =>
    obtain ⟨text, -, rfl⟩ := Option.map_eq_some_iff.mp h
    exact .inr rfl
  | openObject =>
    cases h
    exact .inl ⟨rfl, rfl⟩
  | closeArray | closeObject | comma | colon => cases h

/-- The second token is the first key, or there will be none. -/
theorem keyed_or_begins_none {token : Token} {b : Building}
    (h : Building.step ⟨[], .firstKey⟩ token = some b) :
    (∃ pieces key, token = .literal pieces ∧ Literal.text? pieces = some key ∧
      b = ⟨[], .colon [] key⟩) ∨ b.Begins none := by
  by_cases hclose : token = .closeObject
  · subst hclose
    cases h
    exact .inr rfl
  · rw [Building.step, if_neg hclose] at h
    cases token with
    | literal pieces =>
      obtain ⟨key, htext, rfl⟩ := Option.map_eq_some_iff.mp h
      by_cases hlong : key = Number.longFormKey
      · rw [if_pos hlong]
        exact .inr rfl
      · rw [if_neg hlong]
        exact .inl ⟨pieces, key, rfl, htext, rfl⟩
    | _ => cases h

end Building

/-- **An object that is not empty starts with its bracket, its first key and a colon**, and goes
on. -/
theorem exists_tokens_of_firstKey? {tokens : List Token} {value : Json} {key : Text}
    (h : ofTokens? tokens = some value) (hkey : value.firstKey? = some key) :
    ∃ pieces rest, tokens = .openObject :: .literal pieces :: .colon :: rest ∧ rest ≠ [] ∧
      Literal.text? pieces = some key := by
  -- where it is known that there will be no first key, there is none
  have hnone {tokens : List Token} {b : Building}
      (hrun : (tokens.foldlM Building.step b).bind Building.finish = some value) :
      ¬ b.Begins none := by
    intro hb
    rw [hb.firstKey?_eq hrun] at hkey
    cases hkey
  -- so each of the first tokens is the one that leaves a first key possible
  obtain ⟨token, tokens, b, rfl, hstep, hrun⟩ := Building.exists_step rfl h
  obtain ⟨rfl, rfl⟩ := (Building.opens_or_begins_none hstep).resolve_right (hnone hrun)
  obtain ⟨token, tokens, b, rfl, hstep, hrun⟩ := Building.exists_step rfl hrun
  obtain ⟨pieces, name, rfl, htext, rfl⟩ :=
    (Building.keyed_or_begins_none hstep).resolve_right (hnone hrun)
  have hbegins : Building.Begins (some name) ⟨[], .colon [] name⟩ := rfl
  obtain rfl : key = name := Option.some.inj (hkey.symm.trans (hbegins.firstKey?_eq hrun))
  obtain ⟨token, tokens, b, rfl, hstep, hrun⟩ := Building.exists_step rfl hrun
  by_cases hcolon : token = .colon
  · subst hcolon
    obtain rfl : ⟨[.object [] key], .value⟩ = b := Option.some.inj hstep
    obtain ⟨token, rest, b, rfl, -, -⟩ := Building.exists_step rfl hrun
    exact ⟨pieces, _, rfl, List.cons_ne_nil token rest, htext⟩
  · simp [Building.step, hcolon] at hstep

end Json
end NotebookTidy
