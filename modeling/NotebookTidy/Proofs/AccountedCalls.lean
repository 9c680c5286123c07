import NotebookTidy.Proofs.CellTasks
import NotebookTidy.Proofs.NotebookValues
import NotebookTidy.Proofs.TaskTraces
import NotebookTidy.Proofs.UniqueSegments

/-!
# Calls and notes account for each other

Formatting a source asks the formatter for the whole text, and then perhaps for its code
segments.  What was asked and answered tells everything that comes of it: which failure ends it,
which code is noted down as refused and with which message, and where in the text that comes of it
each piece of code stands (`Accounted`).

Segment by segment there are four things that can happen (`Sends`): an empty segment needs no call,
code is formatted or refused, and a failure of the formatter ends it.  A trace of the task that
formats segments is such a course (`trace_mapTailM`); the rest are inductions on courses, whatever
the formatter answers.
-/

namespace NotebookTidy

/-! ## What an answer says -/

/-- A call with its answer. -/
abbrev Exchange := Call × Formatted

namespace Exchange

/-- Code that the answer refuses, with the message. -/
def refusal? : Exchange → Option (Text × Text)
  | (call, .error (.cannotParse message _)) => some (call.source, message)
  | _ => none

/-- The failure of the formatter itself that the answer is. -/
def failure? : Exchange → Option FormatterError
  | (_, .error error) => if error.blamesCode then none else some error
  | _ => none

/-- What comes of the code if the formatter does not fail: the answer, or the code itself. -/
def kept : Exchange → Text
  | (_, .ok formatted) => formatted
  | (call, .error _) => call.source

/-- What comes of the code. -/
def result (exchange : Exchange) : Except FormatterError Text :=
  match exchange.failure? with
  | some error => .error error
  | none => .ok exchange.kept

theorem result_eq_error_iff {exchange : Exchange} {error : FormatterError} :
    exchange.result = .error error ↔ exchange.failure? = some error := by
  rw [result]
  cases exchange.failure? <;> simp

theorem result_eq_ok_iff {exchange : Exchange} {text : Text} :
    exchange.result = .ok text ↔ exchange.failure? = none ∧ exchange.kept = text := by
  rw [result]
  cases exchange.failure? <;> simp

/-- A failure is never the code's fault. -/
theorem blamesCode_of_failure? {exchange : Exchange} {error : FormatterError}
    (h : exchange.failure? = some error) : error.blamesCode = false := by
  obtain ⟨call, error' | formatted⟩ := exchange
  · rw [failure?] at h
    split at h
    · cases h
    · next hblame =>
      cases h
      exact Bool.eq_false_iff.mpr hblame
  · cases h

/-- An answer that is a failure refuses no code. -/
theorem refusal?_of_failure? {exchange : Exchange} {error : FormatterError}
    (h : exchange.failure? = some error) : exchange.refusal? = none := by
  obtain ⟨call, error' | formatted⟩ := exchange
  · cases error' with
    | cannotParse message line => cases h
    | _ => rfl
  · cases h

/-- Only the last answer can be a failure, if the first is none and this holds of the others. -/
theorem forall_failure?_dropLast {first : Exchange} {more : List Exchange}
    (h : first.failure? = none) (hmore : ∀ exchange ∈ more.dropLast, failure? exchange = none) :
    ∀ exchange ∈ (first :: more).dropLast, failure? exchange = none := by
  cases more with
  | nil => simp
  | cons next more =>
    rw [List.dropLast_cons_cons]
    exact List.forall_mem_cons.mpr ⟨h, hmore⟩

end Exchange

open Exchange (refusal? failure? kept)

/-- The notes with what an answer refuses noted down. -/
def Rejections.heard (notes : Rejections) (exchange : Exchange) : Rejections :=
  notes.noteAll exchange.refusal?.toList

theorem Rejections.heard_of_failure? {exchange : Exchange} {error : FormatterError}
    (h : exchange.failure? = some error) (notes : Rejections) : notes.heard exchange = notes := by
  rw [heard, Exchange.refusal?_of_failure? h]
  rfl

/-- Answers are heard one after the other. -/
theorem Rejections.noteAll_filterMap_cons (notes : Rejections) (exchange : Exchange)
    (exchanges : List Exchange) :
    notes.noteAll ((exchange :: exchanges).filterMap refusal?) =
      (notes.heard exchange).noteAll (exchanges.filterMap refusal?) := by
  rw [heard, noteAll, noteAll, noteAll, ← List.foldl_append, List.filterMap_cons]
  cases refusal? exchange <;> rfl

/-! ## Segments -/

/-- The code segments that need a call. -/
def units (code : List Text) : List Text := code.filter (· ≠ [])

/-- Texts put in the place of the segments that need a call, one after the other. -/
def fill : List Text → List Text → List Text
  | [], _ => []
  | [] :: code, texts => [] :: fill code texts
  | (c :: segment) :: code, [] => (c :: segment) :: fill code []
  | (_ :: _) :: code, text :: texts => text :: fill code texts

/-- **Code segments sent to the formatter one after the other**: with the notes before, what was
asked and answered, the texts or the failure, and the notes afterwards. -/
inductive Sends (mode : Mode) : List Text → Rejections → List Exchange →
    Except FormatterError (List Text) → Rejections → Prop where
  /-- No segment is left. -/
  | nil (notes : Rejections) : Sends mode [] notes [] (.ok []) notes
  /-- An empty segment needs no call. -/
  | empty {code : List Text} {before after : Rejections} {exchanges : List Exchange}
    {result : Except FormatterError (List Text)}
    (rest : Sends mode code before exchanges result after) :
    Sends mode ([] :: code) before exchanges (result.map ([] :: ·)) after
  /-- A segment is formatted, or refused and noted down. -/
  | answered {segment : Text} (nonempty : segment ≠ []) {answer : Formatted}
    (goesOn : failure? (⟨mode, segment⟩, answer) = none) {code : List Text}
    {before after : Rejections} {exchanges : List Exchange}
    {result : Except FormatterError (List Text)}
    (rest : Sends mode code (before.heard (⟨mode, segment⟩, answer)) exchanges result after) :
    Sends mode (segment :: code) before ((⟨mode, segment⟩, answer) :: exchanges)
      (result.map (kept (⟨mode, segment⟩, answer) :: ·)) after
  /-- The formatter fails. -/
  | failed {segment : Text} (nonempty : segment ≠ []) {answer : Formatted} {error : FormatterError}
    (ends : failure? (⟨mode, segment⟩, answer) = some error) (code : List Text)
    (notes : Rejections) :
    Sends mode (segment :: code) notes [(⟨mode, segment⟩, answer)] (.error error) notes

theorem units_cons {segment : Text} (h : segment ≠ []) (code : List Text) :
    units (segment :: code) = segment :: units code :=
  List.filter_cons_of_pos (decide_eq_true h)

theorem fill_cons {segment : Text} (h : segment ≠ []) (code texts : List Text) (text : Text) :
    fill (segment :: code) (text :: texts) = text :: fill code texts := by
  obtain ⟨c, segment, rfl⟩ := List.exists_cons_of_ne_nil h
  rfl

namespace Sends
variable {mode : Mode} {code : List Text} {before after : Rejections}
  {exchanges : List Exchange} {result : Except FormatterError (List Text)}

/-- **Only segments that need a call are asked for**, in their order. -/
theorem asked (h : Sends mode code before exchanges result after) :
    exchanges.map Prod.fst <+: (units code).map (Call.mk mode) := by
  induction h with
  | nil => exact List.nil_prefix
  | empty rest ih => exact ih
  | answered nonempty goesOn rest ih =>
    rw [units_cons nonempty]
    exact List.cons_prefix_cons.mpr ⟨rfl, ih⟩
  | failed nonempty ends code =>
    rw [units_cons nonempty]
    exact List.cons_prefix_cons.mpr ⟨rfl, List.nil_prefix⟩

/-- **The first failure is the result.** -/
theorem failed_iff (h : Sends mode code before exchanges result after) (error : FormatterError) :
    result = .error error ↔ exchanges.findSome? failure? = some error := by
  induction h with
  | nil => simp
  | empty rest ih => exact map_eq_error_iff.trans ih
  | answered nonempty goesOn rest ih =>
    rw [List.findSome?_cons, goesOn]
    exact map_eq_error_iff.trans ih
  | failed nonempty ends code =>
    rw [List.findSome?_cons, ends]
    simp

/-- After a failure nothing is asked. -/
theorem last (h : Sends mode code before exchanges result after) :
    ∀ exchange ∈ exchanges.dropLast, failure? exchange = none := by
  induction h with
  | nil => simp
  | empty rest ih => exact ih
  | answered nonempty goesOn rest ih => exact Exchange.forall_failure?_dropLast goesOn ih
  | failed => simp

/-- **Exactly the refused segments are noted down**, in the order of the calls. -/
theorem noted (h : Sends mode code before exchanges result after) :
    after = before.noteAll (exchanges.filterMap refusal?) := by
  induction h with
  | nil => rfl
  | empty rest ih => exact ih
  | answered nonempty goesOn rest ih => rw [ih, Rejections.noteAll_filterMap_cons]
  | failed nonempty ends code notes =>
    rw [Rejections.noteAll_filterMap_cons, Rejections.heard_of_failure? ends]
    rfl

/-- **Each text is put where its segment was**, once all have been asked for. -/
theorem finished (h : Sends mode code before exchanges result after) {texts : List Text}
    (hresult : result = .ok texts) :
    exchanges.length = (units code).length ∧ texts = fill code (exchanges.map kept) := by
  induction h generalizing texts with
  | nil =>
    cases hresult
    exact ⟨rfl, rfl⟩
  | @empty code before after exchanges result rest ih =>
    cases result with
    | error error => cases hresult
    | ok others =>
      cases hresult
      obtain ⟨hlength, hothers⟩ := ih rfl
      exact ⟨hlength, congrArg ([] :: ·) hothers⟩
  | @answered segment nonempty answer goesOn code before after exchanges result rest ih =>
    cases result with
    | error error => cases hresult
    | ok others =>
      cases hresult
      obtain ⟨hlength, hothers⟩ := ih rfl
      rw [units_cons nonempty, List.length_cons, List.length_cons, hlength, List.map_cons,
        fill_cons nonempty, ← hothers]
      exact ⟨rfl, rfl⟩
  | failed => cases hresult

end Sends

/-! ## Traces -/

namespace Noting
variable {α β : Type} {before after : Rejections} {es : List Event}
  {result : Except FormatterError β}

/-- **A trace of tasks with notes, cut in two**: the first one failed, and nothing followed, or what
followed is a trace of the second. -/
theorem of_trace_bind {x : Noting α} {f : α → Noting β}
    (h : Task.Trace ((x >>= f).start before) es (.done (result, after))) :
    (∃ error, result = .error error ∧
        Task.Trace (x.start before) es (.done (.error error, after))) ∨
      ∃ fs gs a between, es = fs ++ gs ∧ Task.Trace (x.start before) fs (.done (.ok a, between)) ∧
        Task.Trace ((f a).start between) gs (.done (result, after)) := by
  rw [start_bind] at h
  obtain ⟨fs, gs, ⟨first, between⟩, rfl, hfirst, hsecond⟩ := h.bind_ended
  cases first with
  | error error =>
    obtain ⟨rfl, hend⟩ := hsecond.of_done
    cases hend
    exact .inl ⟨error, rfl, by rwa [List.append_nil]⟩
  | ok a => exact .inr ⟨fs, gs, a, between, rfl, hfirst, hsecond⟩

theorem of_trace_map {x : Noting α} {g : α → β}
    (h : Task.Trace ((x >>= fun a => pure (g a)).start before) es (.done (result, after))) :
    ∃ first, Task.Trace (x.start before) es (.done (first, after)) ∧ result = first.map g := by
  rcases of_trace_bind h with ⟨error, rfl, hfirst⟩ | ⟨fs, gs, a, between, rfl, hfirst, hsecond⟩
  · exact ⟨.error error, hfirst, rfl⟩
  · obtain ⟨rfl, hend⟩ := hsecond.of_done
    cases hend
    exact ⟨.ok a, by rwa [List.append_nil], rfl⟩

end Noting

section Traces
variable {mode : Mode} {before after : Rejections} {es : List Event}

/-- A segment that needs a call makes one, and its answer says what comes of it. -/
theorem trace_formatSegment {segment : Text} (hne : segment ≠ [])
    {result : Except FormatterError Text}
    (h : Task.Trace ((formatSegment mode segment).start before) es (.done (result, after))) :
    ∃ answer, es = [.answered ⟨mode, segment⟩ answer] ∧
      result = Exchange.result (⟨mode, segment⟩, answer) ∧
      after = before.heard (⟨mode, segment⟩, answer) := by
  rw [start_formatSegment hne] at h
  obtain ⟨answer, fs, rfl, hrest⟩ := h.of_ask
  refine ⟨answer, ?_⟩
  rcases answer with error | formatted
  · cases error with
    | _ =>
      obtain ⟨rfl, hend⟩ := hrest.of_done
      cases hend
      exact ⟨rfl, rfl, rfl⟩
  · obtain ⟨rfl, hend⟩ := hrest.of_done
    cases hend
    exact ⟨rfl, rfl, rfl⟩

/-- A segment in front of others that are sent is sent first. -/
theorem Sends.of_trace_bind {β : Type} {segment : Text} {code : List Text} {f : Text → Noting β}
    {g : List Text → β} {result : Except FormatterError β}
    (hrest : ∀ text between gs result',
      Task.Trace ((f text).start between) gs (.done (result', after)) →
        ∃ others, Sends mode code between (gs.filterMap Event.exchange?) others after ∧
          result' = others.map fun texts => g (text :: texts))
    (h : Task.Trace ((formatSegment mode segment >>= f).start before) es (.done (result, after))) :
    ∃ texts, Sends mode (segment :: code) before (es.filterMap Event.exchange?) texts after ∧
      result = texts.map g := by
  by_cases hnil : segment = []
  · subst hnil
    obtain ⟨others, hothers, rfl⟩ := hrest [] before es result h
    exact ⟨_, .empty hothers, by cases others <;> rfl⟩
  · rcases Noting.of_trace_bind h with ⟨error, rfl, hfirst⟩ |
      ⟨fs, gs, text, between, rfl, hfirst, hsecond⟩
    · obtain ⟨answer, rfl, hresult, rfl⟩ := trace_formatSegment hnil hfirst
      have hfailure := Exchange.result_eq_error_iff.mp hresult.symm
      rw [Rejections.heard_of_failure? hfailure]
      exact ⟨_, .failed hnil hfailure code before, rfl⟩
    · obtain ⟨answer, rfl, hresult, rfl⟩ := trace_formatSegment hnil hfirst
      obtain ⟨hgoesOn, rfl⟩ := Exchange.result_eq_ok_iff.mp hresult.symm
      obtain ⟨others, hothers, rfl⟩ := hrest _ _ gs result hsecond
      exact ⟨_, .answered hnil hgoesOn hothers, by cases others <;> rfl⟩

/-- **Segments after directives are sent one after the other**, and the directives stay. -/
theorem trace_mapTailM {tail : List (Text × Text)}
    {result : Except FormatterError (List (Text × Text))}
    (h : Task.Trace (Noting.start (Segments.mapTailM (formatSegment mode) tail) before) es
      (.done (result, after))) :
    ∃ texts, Sends mode (tail.map Prod.snd) before (es.filterMap Event.exchange?) texts after ∧
      result = texts.map (tail.map Prod.fst).zip := by
  induction tail generalizing before es result with
  | nil =>
    obtain ⟨rfl, hend⟩ := h.of_done
    cases hend
    exact ⟨.ok [], .nil _, rfl⟩
  | cons entry rest ih =>
    refine Sends.of_trace_bind (fun text between gs result' hmore => ?_) h
    obtain ⟨first, hfirst, rfl⟩ := Noting.of_trace_map hmore
    obtain ⟨others, hothers, rfl⟩ := ih hfirst
    exact ⟨others, hothers, by cases others <;> rfl⟩

/-- **All code segments of a text are sent one after the other**, and put together with its
directives. -/
theorem trace_formatSegments {text : Text} {result : Except FormatterError Text}
    (h : Task.Trace ((formatSegments mode text).start before) es (.done (result, after))) :
    ∃ texts, Sends mode (Segments.split text).code before (es.filterMap Event.exchange?) texts
        after ∧
      result = texts.map fun texts => Segments.join
        ⟨texts.headD [], (Segments.split text).directives.zip texts.tail⟩ := by
  obtain ⟨mapped, hmapped, rfl⟩ := Noting.of_trace_map h
  obtain ⟨texts, htexts, rfl⟩ : ∃ texts,
      Sends mode (Segments.split text).code before (es.filterMap Event.exchange?) texts after ∧
        mapped = texts.map fun texts =>
          ⟨texts.headD [], (Segments.split text).directives.zip texts.tail⟩ := by
    refine Sends.of_trace_bind (fun head between gs result' hmore => ?_) hmapped
    obtain ⟨first, hfirst, rfl⟩ := Noting.of_trace_map hmore
    obtain ⟨others, hothers, rfl⟩ := trace_mapTailM hfirst
    exact ⟨others, hothers, by cases others <;> rfl⟩
  exact ⟨texts, htexts, by cases texts <;> rfl⟩

end Traces

theorem length_fill (code texts : List Text) : (fill code texts).length = code.length := by
  induction code generalizing texts with
  | nil => rfl
  | cons segment code ih =>
    cases segment with
    | nil => exact congrArg Nat.succ (ih texts)
    | cons c segment => cases texts <;> exact congrArg Nat.succ (ih _)

/-- Texts in the places of code segments, put together with the directives. -/
theorem join_fill {code directives : List Text} (h : code.length = directives.length + 1)
    (texts : List Text) :
    Segments.join ⟨(fill code texts).headD [], directives.zip (fill code texts).tail⟩ =
      Segments.interleave (fill code texts) directives := by
  rw [← length_fill code texts] at h
  obtain ⟨head, rest, hfill⟩ := List.exists_cons_of_length_eq_add_one h
  rw [hfill] at h ⊢
  have hlength : rest.length = directives.length := by simpa using h
  rw [Segments.join_eq_interleave, Segments.code, Segments.directives, List.headD_cons,
    List.tail_cons, List.map_snd_zip hlength.le, List.map_fst_zip hlength.ge]

/-! ## The account -/

/-- **The text is refused for a directive, and has one**: the line that was quoted starts with a
mark after its blanks. -/
def RefusedForDirective (text : Text) (answer : Formatted) : Prop :=
  (∃ message quoted, answer = .error (.cannotParse message (some quoted)) ∧
    ∃ c ∈ (Text.trimStart quoted).head?, c ∈ directiveMarks) ∧ HasDirective text

/-- **What formatting a source has asked and noted down, and what comes of it**, told by the answer
to the whole text and by what was asked and answered afterwards. -/
structure Accounted (mode : Mode) (text : Text) (before : Rejections) (first : Formatted)
    (more : List Exchange) (result : Except FormatterError Text) (after : Rejections) :
    Prop where
  /-- If the text is refused for a directive, its segments that are not empty are asked for. -/
  segments_asked : RefusedForDirective text first →
    more.map Prod.fst <+: (units (Segments.split text).code).map (Call.mk mode)
  /-- Otherwise nothing more is asked. -/
  none_asked : ¬ RefusedForDirective text first → more = []
  /-- The result is the first failure among the answers, if there is one. -/
  failed : ∀ error, result = .error error ↔
    ((⟨mode, text⟩, first) :: more).findSome? failure? = some error
  /-- A failure is the last that is answered. -/
  last : ∀ exchange ∈ ((⟨mode, text⟩, first) :: more).dropLast, failure? exchange = none
  /-- A failure is never the code's fault. -/
  blameless : ∀ error, result = .error error → error.blamesCode = false
  /-- The segments that were refused are noted down, whatever the result. -/
  segments_noted : RefusedForDirective text first → after = before.noteAll (more.filterMap refusal?)
  /-- Otherwise the text is noted down, if it was refused. -/
  text_noted : ¬ RefusedForDirective text first →
    after = before.heard (⟨mode, text⟩, first)
  /-- What comes of segments is put where they were: the answers, or they themselves. -/
  segments_kept : RefusedForDirective text first → ∀ out, result = .ok out →
    more.length = (units (Segments.split text).code).length ∧
      out = Segments.interleave (fill (Segments.split text).code (more.map kept))
        (Segments.split text).directives
  /-- Otherwise the answer comes of the text, or the text itself. -/
  text_kept : ¬ RefusedForDirective text first → ∀ out, result = .ok out →
    out = kept (⟨mode, text⟩, first)

theorem tail_split_ne_nil_iff {text : Text} :
    (Segments.split text).tail ≠ [] ↔ HasDirective text := by
  rw [← not_iff_not, ← plain_iff, not_ne_iff]
  constructor
  · intro htail
    have hproper := Segments.proper_split text
    have hjoin := Segments.join_split text
    rw [Segments.join, htail, Segments.joinTail, List.append_nil] at hjoin
    rw [← hjoin]
    exact hproper.1
  · intro hplain
    have hsplit := Segments.split_append (t := []) hplain fun hne => absurd rfl hne
    rw [List.append_nil] at hsplit
    rw [hsplit]
    rfl

theorem cutsUp_iff {text message : Text} {line : Option Text} :
    cutsUp text line = true ↔ RefusedForDirective text (.error (.cannotParse message line)) := by
  rw [cutsUp, Bool.and_eq_true, decide_eq_true_iff, tail_split_ne_nil_iff, RefusedForDirective]
  refine and_congr_left fun _ => ?_
  cases line with
  | none => simp [quotesDirective]
  | some quoted =>
    rw [quotesDirective, isDirective_iff]
    constructor
    · intro hmark
      exact ⟨message, quoted, rfl, hmark⟩
    · rintro ⟨_, _, heq, hmark⟩
      cases heq
      exact hmark

theorem not_refusedForDirective {text : Text} {answer : Formatted}
    (h : ∀ message line, answer ≠ .error (.cannotParse message line)) :
    ¬ RefusedForDirective text answer := by
  rintro ⟨⟨message, quoted, rfl, -⟩, -⟩
  exact h message (some quoted) rfl

namespace Accounted
variable {mode : Mode} {text : Text} {before after : Rejections} {first : Formatted}
  {more : List Exchange}

/-- A text that is not refused for a directive is done with the first answer. -/
theorem of_whole (h : ¬ RefusedForDirective text first) :
    Accounted mode text before first [] (Exchange.result (⟨mode, text⟩, first))
      (before.heard (⟨mode, text⟩, first)) where
  segments_asked hcut := absurd hcut h
  none_asked _ := rfl
  failed error := by
    rw [Exchange.result_eq_error_iff, List.findSome?_cons]
    cases failure? (⟨mode, text⟩, first) <;> rfl
  last := by simp
  blameless error herror :=
    Exchange.blamesCode_of_failure? (Exchange.result_eq_error_iff.mp herror)
  segments_noted hcut := absurd hcut h
  text_noted _ := rfl
  segments_kept hcut := absurd hcut h
  text_kept _ out hout := (Exchange.result_eq_ok_iff.mp hout).2.symm

/-- A text that is refused for a directive is done with its segments. -/
theorem of_sends (h : RefusedForDirective text first) {texts : Except FormatterError (List Text)}
    (hsends : Sends mode (Segments.split text).code before more texts after) :
    Accounted mode text before first more
      (texts.map fun texts => Segments.join
        ⟨texts.headD [], (Segments.split text).directives.zip texts.tail⟩) after := by
  have hgoesOn : failure? (⟨mode, text⟩, first) = none := by
    obtain ⟨⟨message, quoted, rfl, -⟩, -⟩ := h
    rfl
  have hfailed (error : FormatterError) :
      (texts.map fun texts => Segments.join
        ⟨texts.headD [], (Segments.split text).directives.zip texts.tail⟩) = .error error ↔
        ((⟨mode, text⟩, first) :: more).findSome? failure? = some error := by
    rw [List.findSome?_cons, hgoesOn]
    exact map_eq_error_iff.trans (hsends.failed_iff error)
  exact
    { segments_asked := fun _ => hsends.asked
      none_asked := fun hwhole => absurd h hwhole
      failed := hfailed
      last := Exchange.forall_failure?_dropLast hgoesOn hsends.last
      blameless := by
        intro error herror
        obtain ⟨exchange, -, hexchange⟩ :=
          List.exists_of_findSome?_eq_some ((hfailed error).mp herror)
        exact Exchange.blamesCode_of_failure? hexchange
      segments_noted := fun _ => hsends.noted
      text_noted := fun hwhole => absurd h hwhole
      segments_kept := by
        intro _ out hout
        cases texts with
        | error error => cases hout
        | ok texts =>
          cases hout
          obtain ⟨hlength, rfl⟩ := hsends.finished rfl
          exact ⟨hlength, join_fill (Segments.length_code _) _⟩
      text_kept := fun hwhole => absurd h hwhole }

end Accounted

/-- **A trace of formatting a source is accounted for**, whatever the answers in it are. -/
theorem trace_formatSource {mode : Mode} {text : Text} {before after : Rejections}
    {es : List Event} {result : Except FormatterError Text}
    (h : Task.Trace ((formatSource mode text).start before) es (.done (result, after))) :
    ∃ first fs, es = .answered ⟨mode, text⟩ first :: fs ∧
      Accounted mode text before first (fs.filterMap Event.exchange?) result after := by
  rw [start_formatSource] at h
  obtain ⟨first, fs, rfl, hrest⟩ := h.of_ask
  refine ⟨first, fs, rfl, ?_⟩
  rcases first with error | formatted
  · cases error with
    | cannotParse message line =>
      by_cases hcut : cutsUp text line = true
      · simp only [hcut, if_true] at hrest
        obtain ⟨texts, hsends, rfl⟩ := trace_formatSegments hrest
        exact .of_sends (cutsUp_iff.mp hcut) hsends
      · simp only [hcut, Bool.false_eq_true, if_false] at hrest
        obtain ⟨rfl, hend⟩ := hrest.of_done
        cases hend
        exact .of_whole (mt cutsUp_iff.mpr hcut)
    | _ =>
      obtain ⟨rfl, hend⟩ := hrest.of_done
      cases hend
      exact .of_whole (not_refusedForDirective (by simp))
  · obtain ⟨rfl, hend⟩ := hrest.of_done
    cases hend
    exact .of_whole (not_refusedForDirective (by simp))

/-- **Refused code is kept and accounted for, and ends nothing.**  Whatever the formatter answers,
it is asked for the whole text first; what it answers there and afterwards accounts for the result
and for the notes. -/
theorem formatSource_accounted (formatter : Formatter) (mode : Mode) (text : Text)
    (before : Rejections) (w : World) :
    ∃ first more result after w',
      ((formatSource mode text).start before).run formatter w = ((result, after), w') ∧
        World.exchangesSince formatter w w' = (⟨mode, text⟩, first) :: more ∧
        Accounted mode text before first more result after := by
  obtain ⟨es, htrace, hfollows⟩ :=
    (Task.steps_run formatter ((formatSource mode text).start before) w).trace
  obtain ⟨first, fs, rfl, haccounted⟩ := trace_formatSource htrace
  exact ⟨first, fs.filterMap Event.exchange?, _, _, _, rfl, hfollows.exchangesSince_eq, haccounted⟩

end NotebookTidy
